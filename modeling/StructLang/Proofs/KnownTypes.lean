import StructLang.Proofs.DeclaredTypes
import StructLang.Proofs.Storing

/-!
# The types that a check finds

A table is closed when all types that it stores name registered structs.  Against a closed table the
checker finds such types only.  `Gives t holds x` says of a rule `x` that its outcome has a property,
and that a refusal names known types and does not come from a gap in the table; it is shown for the
rules that look at one token.  `Checked.Finds` says the same of a check, and that the tree carries
known types only, also where the check has stopped; it is shown for every form of syntax.

A completed table is closed (`Completion.closed`), so the receiver of an access always has a struct.
-/

namespace StructLang

variable {α β : Type}

/-- A type that a body may have: if it is a struct, the struct is registered. -/
def Ty.Known (t : SymbolTable) (ty : Ty) : Prop :=
  ∀ name, ty = .struct name → t.contains name = true

theorem Ty.Over.known {t : SymbolTable} {ty : Ty} (h : ty.Over fun n => t.contains n = true) :
    ty.Known t := by
  rintro name rfl
  exact h

/-- Types that a body may have. -/
def AllKnown (t : SymbolTable) (types : List Ty) : Prop := ∀ ty ∈ types, ty.Known t

theorem AllKnown.cons {t : SymbolTable} {x : Ty} {xs : List Ty} (hx : x.Known t)
    (hxs : AllKnown t xs) : AllKnown t (x :: xs) :=
  List.forall_mem_cons.2 ⟨hx, hxs⟩

theorem AllKnown.nil {t : SymbolTable} : AllKnown t [] := fun _ hty => (by cases hty)

/-! ## The results of a tree -/

mutual

/-- The results of an expression. -/
def Expression.results : Expression α → List α
  | .access chain => chain.results
  | .unary _ operand result => result :: operand.results
  | .binary left _ right result => result :: (left.results ++ right.results)

/-- The results of a chain. -/
def Chain.results : Chain α → List α
  | ⟨head, rest⟩ => head.results ++ Link.allResults rest

/-- The results of links. -/
def Link.allResults : List (Link α) → List α
  | [] => []
  | link :: rest => link.results ++ Link.allResults rest

/-- The results of a link. -/
def Link.results : Link α → List α
  | ⟨_, action, result⟩ => result :: action.results

/-- The results of what a link works on. -/
def Action.results : Action α → List α
  | .simple => []
  | .call args => Expression.allResults args
  | .index position => position.results
  | .newInstance args => Expression.allResults args
  | .newArray dimension => dimension.results
  | .group inner => inner.results

/-- The results of expressions. -/
def Expression.allResults : List (Expression α) → List α
  | [] => []
  | e :: rest => e.results ++ Expression.allResults rest

end

mutual

/-- The results of a sentence. -/
def Sentence.results : Sentence α → List α
  | .block sentences => Sentence.allResults sentences
  | .conditional _ condition thenBranch elseBranch =>
    condition.results ++ (thenBranch.results ++ match elseBranch with
      | none => []
      | some otherwise => otherwise.results)
  | .loop _ condition body => condition.results ++ body.results
  | .assignment target _ value => target.results ++ value.results
  | .giveBack _ value => Expression.allResults value.toList
  | .expression e => e.results

/-- The results of sentences. -/
def Sentence.allResults : List (Sentence α) → List α
  | [] => []
  | s :: rest => s.results ++ Sentence.allResults rest

end

/-- The results of a body. -/
def Block.results (b : Block α) : List α := Sentence.allResults b

section Map

variable (f : α → β)

mutual

/-- Changing the results changes each of them. -/
theorem Expression.results_map : ∀ e : Expression α, (e.map f).results = e.results.map f
  | .access chain => Chain.results_map chain
  | .unary operator operand result => by
    rw [Expression.map, Expression.results, Expression.results, Chain.results_map operand,
      List.map_cons]
  | .binary left operator right result => by
    rw [Expression.map, Expression.results, Expression.results, Expression.results_map left,
      Expression.results_map right, List.map_cons, List.map_append]

theorem Chain.results_map : ∀ chain : Chain α, (chain.map f).results = chain.results.map f
  | ⟨head, rest⟩ => by
    rw [Chain.map, Chain.results, Chain.results, Link.results_map head, Link.allResults_map rest,
      List.map_append]

theorem Link.allResults_map : ∀ links : List (Link α),
    Link.allResults (Link.mapAll f links) = (Link.allResults links).map f
  | [] => rfl
  | link :: rest => by
    rw [Link.mapAll, Link.allResults, Link.allResults, Link.results_map link,
      Link.allResults_map rest, List.map_append]

theorem Link.results_map : ∀ link : Link α, (link.map f).results = link.results.map f
  | ⟨token, action, result⟩ => by
    rw [Link.map, Link.results, Link.results, Action.results_map action, List.map_cons]

theorem Action.results_map : ∀ action : Action α, (action.map f).results = action.results.map f
  | .simple => rfl
  | .call args => Expression.allResults_map args
  | .index position => Expression.results_map position
  | .newInstance args => Expression.allResults_map args
  | .newArray dimension => Expression.results_map dimension
  | .group inner => Expression.results_map inner

theorem Expression.allResults_map : ∀ es : List (Expression α),
    Expression.allResults (Expression.mapAll f es) = (Expression.allResults es).map f
  | [] => rfl
  | e :: rest => by
    rw [Expression.mapAll, Expression.allResults, Expression.allResults, Expression.results_map e,
      Expression.allResults_map rest, List.map_append]

end

mutual

theorem Sentence.results_map : ∀ s : Sentence α, (s.map f).results = s.results.map f
  | .block sentences => Sentence.allResults_map sentences
  | .conditional token condition thenBranch none => by
    simp only [Sentence.map, Sentence.results, Expression.results_map,
      Sentence.results_map thenBranch, List.map_append, List.map_nil]
  | .conditional token condition thenBranch (some otherwise) => by
    simp only [Sentence.map, Sentence.results, Expression.results_map,
      Sentence.results_map thenBranch, Sentence.results_map otherwise, List.map_append]
  | .loop token condition body => by
    rw [Sentence.map, Sentence.results, Sentence.results, Expression.results_map,
      Sentence.results_map body, List.map_append]
  | .assignment target token value => by
    rw [Sentence.map, Sentence.results, Sentence.results, Chain.results_map,
      Expression.results_map, List.map_append]
  | .giveBack token none => rfl
  | .giveBack token (some value) => Expression.allResults_map f [value]
  | .expression e => Expression.results_map f e

theorem Sentence.allResults_map : ∀ ss : List (Sentence α),
    Sentence.allResults (Sentence.mapAll f ss) = (Sentence.allResults ss).map f
  | [] => rfl
  | s :: rest => by
    rw [Sentence.mapAll, Sentence.allResults, Sentence.allResults, Sentence.results_map s,
      Sentence.allResults_map rest, List.map_append]

end

end Map

/-- Results that a tree may carry: where there is a type, it is known. -/
def ResultsKnown (t : SymbolTable) (results : List (Option Ty)) : Prop :=
  ∀ ty, some ty ∈ results → ty.Known t

namespace ResultsKnown

variable {t : SymbolTable} {xs ys : List (Option Ty)}

theorem append_iff : ResultsKnown t (xs ++ ys) ↔ ResultsKnown t xs ∧ ResultsKnown t ys := by
  simp only [ResultsKnown, List.mem_append, or_imp, forall_and]

theorem append (hx : ResultsKnown t xs) (hy : ResultsKnown t ys) : ResultsKnown t (xs ++ ys) :=
  append_iff.2 ⟨hx, hy⟩

theorem cons_iff {x : Option Ty} :
    ResultsKnown t (x :: xs) ↔ ResultsKnown t [x] ∧ ResultsKnown t xs :=
  @append_iff t [x] xs

theorem cons {x : Option Ty} (hxs : ResultsKnown t xs) (hx : ResultsKnown t [x]) :
    ResultsKnown t (x :: xs) :=
  cons_iff.2 ⟨hx, hxs⟩

theorem single {ty : Ty} (h : ty.Known t) : ResultsKnown t [some ty] := by
  intro other hother
  cases List.mem_singleton.1 hother
  exact h

/-- A body without results carries no type. -/
theorem blank (b : Block α) : ResultsKnown t b.blank.results := by
  intro ty hty
  rw [Block.results, Block.blank, Block.map, Sentence.allResults_map] at hty
  obtain ⟨_, _, hnone⟩ := List.mem_map.1 hty
  cases hnone

end ResultsKnown

/-! ## Refusals -/

/-- The types that a mismatch names. -/
def Mismatch.types : Mismatch → List Ty
  | .condition found | .returnsNothing _ found | .operandNotInt _ found | .operandNotBool found
  | .notArray _ found | .arrayIndex found | .arrayDimension found => [found]
  | .assignment found expected | .returned found expected | .operands _ found expected
  | .argument _ expected found => [found, expected]
  | .returnsVoid _ | .notUnary _ | .notBinary _ | .operandNotSimple _ | .operandArray _
  | .operandLiteral _ | .arrayElement _ | .constructorArguments _ _ | .argumentCount _ _ _ => []

/-- The types that the refusal of a body names. -/
def Cause.types : Cause → List Ty
  | .mismatch m => m.types
  | .badAccess (.noMembers ty _) => [ty]
  | _ => []

/-- Whether a cause is a gap in the table: a receiver without its struct, or a body without its
method. -/
def Cause.isGap : Cause → Bool
  | .unregisteredReceiver _ | .bodyWithoutMethod _ => true
  | _ => false

/-- A refusal that names known types and does not come from a gap in the table. -/
structure Cause.Sensible (t : SymbolTable) (cause : Cause) : Prop where
  types : AllKnown t cause.types
  isGap : cause.isGap = false

/-- The outcome has a property, or the refusal is sensible. -/
def Gives (t : SymbolTable) (holds : α → Prop) : Except SemanticError α → Prop
  | .ok a => holds a
  | .error e => e.cause.Sensible t

namespace Gives

variable {t : SymbolTable} {holds : α → Prop} {holds' : β → Prop} {x : Except SemanticError α}

theorem bind {f : α → Except SemanticError β} (hx : Gives t holds x)
    (hf : ∀ a, holds a → Gives t holds' (f a)) : Gives t holds' (x >>= f) := by
  cases x with
  | ok a => exact hf a hx
  | error e => exact hx

theorem of_error (h : Gives t holds x) {e : SemanticError} (he : x = .error e) :
    e.cause.Sensible t := by
  rw [he] at h
  exact h

/-- A refusal that names no types. -/
theorem refuse {cause : Cause} {place : Position} (hgap : cause.isGap = false)
    (htypes : cause.types = []) : Gives t holds (.error ⟨cause, place⟩) := by
  refine ⟨fun ty hty => ?_, hgap⟩
  rw [show (⟨cause, place⟩ : SemanticError).cause.types = [] from htypes] at hty
  cases hty

/-- A refusal for a mismatch. -/
theorem mismatch {m : Mismatch} {place : Position} (htypes : AllKnown t m.types) :
    Gives t holds (.error ⟨.mismatch m, place⟩) :=
  ⟨htypes, rfl⟩

end Gives

/-! ## One token -/

/-- All types that the table stores name registered structs, the built-in ones among them. -/
structure SymbolTable.Closed (t : SymbolTable) : Prop where
  name_eq : ∀ n s, t.struct? n = some s → s.name = n
  builtin : ∀ n, Builtin.structs.contains n = true → t.contains n = true
  types : t.TypesHave (Ty.Over fun n => t.contains n = true)

/-- The table is closed, and so are the types of the method. -/
structure Context.Closed (c : Context) : Prop where
  table : c.table.Closed
  method : AllKnown c.table c.method.types

/-- The type of a receiver is known. -/
def Receiver.Known (t : SymbolTable) (receiver : Receiver) : Prop := receiver.ty.Known t

/-- Every primitive type and every type of arrays has its struct. -/
theorem Builtin.contains_structName? {ty : Ty} {name : String} (h : ty.structName? = some name) :
    ty = .struct name ∨ structs.contains name = true := by
  cases ty with
  | struct other =>
    cases h
    exact .inl rfl
  | prim p | literal p | array p =>
    cases h
    refine .inr ?_
    cases p <;> decide
  | nil | void => cases h

namespace Context

variable {c : Context} {token : Token}

theorem Closed.known_param (h : c.Closed) {b : Binding} (hb : b ∈ c.method.params) :
    b.ty.Known c.table :=
  h.method _ (List.mem_cons_of_mem _ (List.mem_append_left _ (List.mem_map_of_mem hb)))

theorem Closed.known_local (h : c.Closed) {b : Binding} (hb : b ∈ c.method.locals) :
    b.ty.Known c.table :=
  h.method _ (List.mem_cons_of_mem _ (List.mem_append_right _ (List.mem_map_of_mem hb)))

theorem Closed.current (h : c.Closed) {s : Struct} (hs : c.current = some s) :
    c.table.struct? s.name = some s := by
  obtain ⟨n, _, hs⟩ := Option.bind_eq_some_iff.1 hs
  rw [h.table.name_eq n s hs]
  exact hs

theorem gives_require {holds : Bool} {mismatch : Mismatch} {place : Position}
    (h : AllKnown c.table mismatch.types) :
    Gives c.table (fun _ => True) (require holds mismatch place) := by
  unfold require
  split
  · trivial
  · exact .mismatch h

theorem gives_requireAssignable {value target : Ty} {mismatch : Mismatch} {place : Position}
    (h : AllKnown c.table mismatch.types) :
    Gives c.table (fun _ => True) (c.requireAssignable value target mismatch place) := by
  unfold requireAssignable
  split
  · trivial
  · exact .mismatch h

theorem gives_visibleAttribute (h : c.Closed) {s : Struct} (hs : c.table.struct? s.name = some s) :
    Gives c.table (Receiver.Known c.table) (c.visibleAttribute s token) := by
  unfold visibleAttribute Struct.lookup
  cases ha : s.attributes.get? token.lexeme with
  | none => exact .refuse rfl rfl
  | some a =>
    dsimp only
    split
    · next heq =>
      split at heq
      · cases heq
        exact ((h.table.types.structs _ s hs).attributes _ a ha).known
      · cases heq
    · exact .refuse rfl rfl
    · exact .refuse rfl rfl

/-- The members of a known type are those of a registered struct. -/
theorem gives_memberStruct (h : c.Closed) {ty : Ty} (hty : ty.Known c.table) :
    Gives c.table (fun s => c.table.struct? s.name = some s) (c.memberStruct ty token) := by
  unfold memberStruct
  split
  · exact ⟨AllKnown.nil.cons hty, rfl⟩
  · next name hname =>
    have hregistered : c.table.contains name = true :=
      (Builtin.contains_structName? hname).elim (hty name) (h.table.builtin name)
    obtain ⟨s, hs⟩ := SymbolTable.contains_iff_struct?.1 hregistered
    rw [hs]
    show c.table.struct? s.name = some s
    rw [h.table.name_eq name s hs, hs]

theorem gives_identifier (h : c.Closed) :
    Gives c.table (Receiver.Known c.table) (c.identifier token) := by
  unfold identifier
  split
  · next hlocal => exact h.known_local (List.mem_of_find?_eq_some hlocal)
  · next hparam => exact h.known_param (List.mem_of_find?_eq_some hparam)
  · split
    · exact .refuse rfl rfl
    · next s hs =>
      split
      · exact .refuse rfl rfl
      · split
        · exact .refuse rfl rfl
        · exact gives_visibleAttribute h (h.current hs)

theorem gives_selfValue (h : c.Closed) :
    Gives c.table (Receiver.Known c.table) (c.selfValue token) := by
  unfold selfValue
  split
  · next s hs _ =>
    rintro name ⟨⟩
    exact SymbolTable.contains_iff_struct?.2 ⟨s, h.current hs⟩
  · exact .refuse rfl rfl

theorem gives_headAccess (h : c.Closed) :
    Gives c.table (Receiver.Known c.table) (c.headAccess token) := by
  unfold headAccess
  split
  case h_7 => exact gives_selfValue h
  case h_8 => exact gives_identifier h
  case h_9 =>
    split
    · next hregistered =>
      rintro name ⟨⟩
      exact hregistered
    · exact .refuse rfl rfl
  all_goals
    rintro name ⟨⟩

theorem gives_memberAccess (h : c.Closed) {receiver : Receiver} (hreceiver : receiver.Known c.table) :
    Gives c.table (Receiver.Known c.table) (c.memberAccess receiver token) := by
  unfold memberAccess
  split
  · exact .refuse rfl rfl
  · cases receiver with
    | struct name => exact .refuse rfl rfl
    | value ty =>
      exact (gives_memberStruct h hreceiver).bind fun s hs => gives_visibleAttribute h hs

theorem gives_access (h : c.Closed) {receiver : Option Receiver}
    (hreceiver : ∀ r, receiver = some r → r.Known c.table) :
    Gives c.table (Receiver.Known c.table) (c.access receiver token) := by
  cases receiver with
  | none => exact gives_headAccess h
  | some receiver => exact gives_memberAccess h (hreceiver receiver rfl)

theorem gives_requireHead (receiver : Option Receiver) :
    Gives c.table (fun _ => True) (requireHead receiver token) := by
  cases receiver with
  | none => trivial
  | some receiver => exact .refuse rfl rfl

/-- A call finds the struct of its receiver. -/
theorem gives_callee (h : c.Closed) {receiver : Option Receiver}
    (hreceiver : ∀ r, receiver = some r → r.Known c.table) :
    Gives c.table (fun found => c.table.struct? found.1.name = some found.1)
      (c.callee receiver token) := by
  unfold callee
  split
  · split
    · next s hs => exact h.current hs
    · exact .refuse rfl rfl
  · next name =>
    obtain ⟨s, hs⟩ := SymbolTable.contains_iff_struct?.1 (hreceiver _ rfl name rfl)
    rw [hs]
    show c.table.struct? s.name = some s
    rw [h.table.name_eq name s hs, hs]
  · exact (gives_memberStruct h (hreceiver _ rfl)).bind fun s hs => hs

theorem gives_calledMethod (h : c.Closed) {receiver : Option Receiver}
    (hreceiver : ∀ r, receiver = some r → r.Known c.table) :
    Gives c.table (fun m => AllKnown c.table m.types) (c.calledMethod receiver token) := by
  refine (gives_callee h hreceiver).bind fun (s, staticOnly) hs => ?_
  dsimp only
  split
  · exact .refuse rfl rfl
  · next m hm =>
    split
    · exact .refuse rfl rfl
    · exact fun ty hty => ((h.table.types.structs _ s hs).methods _ m hm ty hty).known

theorem gives_createdStruct :
    Gives c.table (fun s => c.table.struct? token.lexeme = some s) (c.createdStruct token) := by
  unfold createdStruct
  split
  · exact .refuse rfl rfl
  · next s hs =>
    split
    · exact .refuse rfl rfl
    · exact hs

theorem gives_constructorParams (h : c.Closed) {s : Struct} {n : String}
    (hs : c.table.struct? n = some s) (args : Nat) :
    Gives c.table (fun params => ∀ b ∈ params, b.ty.Known c.table)
      (constructorParams s token args) := by
  unfold constructorParams
  split
  · next m hm =>
    intro b hb
    refine ((h.table.types.structs _ s hs).constructor m hm b.ty ?_).known
    exact List.mem_cons_of_mem _ (List.mem_append_left _ (List.mem_map_of_mem hb))
  · split
    · intro b hb
      cases hb
    · exact .refuse rfl rfl

theorem gives_requireArity (params : List Binding) (args : Nat) :
    Gives c.table (fun _ => True) (requireArity params token args) := by
  unfold requireArity
  split
  · trivial
  · exact .refuse rfl rfl

theorem gives_unaryType {op : UnaryOperator} {ty : Ty} (hty : ty.Known c.table) :
    Gives c.table (Ty.Known c.table) (unaryType token op ty) := by
  have hfound : AllKnown c.table [ty] := AllKnown.nil.cons hty
  refine (gives_require .nil).bind fun _ _ => ?_
  cases op with
  | increment | decrement =>
    refine (gives_require .nil).bind fun _ _ => ?_
    refine (gives_require ?_).bind fun _ _ => ?_
    · exact hfound
    · rintro name ⟨⟩
  | not =>
    refine (gives_require ?_).bind fun _ _ => ?_
    · exact hfound
    · rintro name ⟨⟩
  | plus | minus =>
    refine (gives_require ?_).bind fun _ _ => ?_
    · exact hfound
    · exact hty

theorem gives_binaryType {op : BinaryOperator} {left right : Ty} (hleft : left.Known c.table)
    (hright : right.Known c.table) :
    Gives c.table (Ty.Known c.table) (c.binaryType token op left right) := by
  have hfound : AllKnown c.table (Mismatch.operands token.lexeme left right).types :=
    (AllKnown.nil.cons hright).cons hleft
  cases op <;>
    exact (gives_require hfound).bind fun _ _ => by rintro name ⟨⟩

end Context

/-! ## Steps -/

section Steps

variable {σ τ : Type} {t : SymbolTable} {results : τ → List (Option Ty)}
  {results' : σ → List (Option Ty)} {holds : α → Prop} {holds' : β → Prop} {created : NameSet}

/-- A check ends with known types in the tree, and its answer has a property or is sensible. -/
structure Checked.Finds (t : SymbolTable) (results : τ → List (Option Ty)) (holds : α → Prop)
    (r : Checked τ α) : Prop where
  tree : ResultsKnown t (results r.tree)
  answer : Gives t holds r.answer

namespace Checked.Finds

theorem done {tree : τ} {a : α} (htree : ResultsKnown t (results tree)) (ha : holds a) :
    (Checking.done tree a created).Finds t results holds :=
  ⟨htree, ha⟩

theorem stop {tree : τ} {e : SemanticError} (htree : ResultsKnown t (results tree))
    (he : Gives t holds (.error e)) : (Checking.stop tree e created).Finds t results holds :=
  ⟨htree, he⟩

theorem ask {tree : τ} {rule : Except SemanticError β} {next : β → Checking τ α}
    (htree : ResultsKnown t (results tree)) (hrule : Gives t holds' rule)
    (hnext : ∀ b, holds' b → (next b created).Finds t results holds) :
    (Checking.ask tree rule next created).Finds t results holds := by
  cases rule with
  | error e => exact ⟨htree, hrule⟩
  | ok b => exact hnext b hrule

theorem part {check : Checking σ β} {place : σ → τ} {next : σ → β → Checking τ α}
    (hcheck : (check created).Finds t results' holds')
    (hplace : ∀ s, ResultsKnown t (results' s) → ResultsKnown t (results (place s)))
    (hnext : ∀ s b names, ResultsKnown t (results' s) → holds' b →
      (next s b names).Finds t results holds) :
    (check.part place next created).Finds t results holds := by
  obtain ⟨htree, hanswer⟩ := hcheck
  rw [Checking.part]
  rcases hend : check created with ⟨tree, names, answer⟩
  rw [hend] at htree hanswer
  cases answer with
  | error e => exact ⟨hplace tree htree, hanswer⟩
  | ok b => exact hnext tree b names htree hanswer

end Checked.Finds

end Steps

/-! ## Expressions -/

variable {c : Context}

mutual

/-- An expression is given known types. -/
theorem Expression.finds_check (h : c.Closed) (created : NameSet) : ∀ e : Expression (Option Ty),
    ResultsKnown c.table e.results →
      (e.check c created).Finds c.table Expression.results (Ty.Known c.table)
  | .access chain, hbefore => by
    rw [Expression.check]
    exact .part (Chain.finds_check h created chain hbefore) (fun _ hs => hs)
      fun _ _ _ hs hty => .done hs hty
  | .unary operator operand before, hbefore => by
    rw [Expression.check]
    obtain ⟨hresult, hoperand⟩ := ResultsKnown.cons_iff.1 hbefore
    cases UnaryOperator.ofKind? operator.kind with
    | none => exact .stop hbefore (.refuse rfl rfl)
    | some op =>
      refine .ask hbefore (Context.gives_require .nil) fun _ _ => ?_
      refine .part (Chain.finds_check h created operand hoperand) (fun s hs => hs.cons hresult)
        fun s ty _ hs hty => ?_
      refine .ask (hs.cons hresult) (Context.gives_unaryType hty) fun result hfound => ?_
      exact .done (hs.cons (.single hfound)) hfound
  | .binary left operator right before, hbefore => by
    rw [Expression.check]
    obtain ⟨hresult, hparts⟩ := ResultsKnown.cons_iff.1 hbefore
    obtain ⟨hleft, hright⟩ := ResultsKnown.append_iff.1 hparts
    cases BinaryOperator.ofKind? operator.kind with
    | none => exact .stop hbefore (.refuse rfl rfl)
    | some op =>
      refine .part (Expression.finds_check h created left hleft)
        (fun l hl => (hl.append hright).cons hresult) fun l lty names hl hlty => ?_
      refine .part (Expression.finds_check h names right hright)
        (fun r hr => (hl.append hr).cons hresult) fun r rty _ hr hrty => ?_
      refine .ask ((hl.append hr).cons hresult) (Context.gives_binaryType hlty hrty)
        fun result hfound => ?_
      exact .done ((hl.append hr).cons (.single hfound)) hfound

theorem Chain.finds_check (h : c.Closed) (created : NameSet) : ∀ chain : Chain (Option Ty),
    ResultsKnown c.table chain.results →
      (chain.check c created).Finds c.table Chain.results (Ty.Known c.table)
  | ⟨head, rest⟩, hbefore => by
    rw [Chain.check]
    obtain ⟨hhead, hrest⟩ := ResultsKnown.append_iff.1 hbefore
    have hnone : ∀ r, none = some r → Receiver.Known c.table r := by
      intro r hr
      cases hr
    refine .part (Link.finds_check h created hnone head hhead) (fun s hs => hs.append hrest)
      fun s receiver names hs hreceiver => ?_
    exact .part (Link.finds_checkRest h names s.token hreceiver rest hrest)
      (fun _ hr => hs.append hr) fun _ _ _ hr hty => .done (hs.append hr) hty

theorem Link.finds_checkRest (h : c.Closed) (created : NameSet) (token : Token)
    {receiver : Receiver} (hreceiver : receiver.Known c.table) :
    ∀ links : List (Link (Option Ty)), ResultsKnown c.table (Link.allResults links) →
      (Link.checkRest c token receiver links created).Finds c.table Link.allResults
        (Ty.Known c.table)
  | [], hbefore => by
    rw [Link.checkRest.eq_def]
    cases receiver with
    | value ty => exact .done hbefore hreceiver
    | struct name => exact .stop hbefore (.refuse rfl rfl)
  | link :: rest, hbefore => by
    rw [Link.checkRest]
    obtain ⟨hlink, hrest⟩ := ResultsKnown.append_iff.1 hbefore
    have hknown : ∀ r, some receiver = some r → r.Known c.table := by
      rintro r ⟨⟩
      exact hreceiver
    refine .part (Link.finds_check h created hknown link hlink) (fun s hs => hs.append hrest)
      fun s next names hs hnext => ?_
    exact .part (Link.finds_checkRest h names s.token hnext rest hrest)
      (fun _ hr => hs.append hr) fun _ _ _ hr hty => .done (hs.append hr) hty

/-- A link is given known types, and what it hands on has one. -/
theorem Link.finds_check (h : c.Closed) (created : NameSet) {receiver : Option Receiver}
    (hreceiver : ∀ r, receiver = some r → r.Known c.table) : ∀ link : Link (Option Ty),
    ResultsKnown c.table link.results →
      (link.check c receiver created).Finds c.table Link.results (Receiver.Known c.table)
  | ⟨token, action, before⟩, hbefore => by
    rw [Link.check]
    obtain ⟨hresult, haction⟩ := ResultsKnown.cons_iff.1 hbefore
    exact .part (Action.finds_check h created hreceiver token action haction)
      (fun s hs => hs.cons hresult) fun s found _ hs hfound => .done (hs.cons (.single hfound)) hfound

theorem Action.finds_check (h : c.Closed) (created : NameSet) {receiver : Option Receiver}
    (hreceiver : ∀ r, receiver = some r → r.Known c.table) (token : Token) :
    ∀ action : Action (Option Ty), ResultsKnown c.table action.results →
      (action.check c receiver token created).Finds c.table Action.results
        (Receiver.Known c.table)
  | .simple, hbefore => by
    rw [Action.check]
    exact .ask hbefore (Context.gives_access h hreceiver) fun _ hresult => .done hbefore hresult
  | .call args, hbefore => by
    rw [Action.check]
    refine .ask hbefore (Context.gives_calledMethod h hreceiver) fun m hm => ?_
    refine .ask hbefore (Context.gives_requireArity _ _) fun _ _ => ?_
    have hparams : ∀ b ∈ m.params, b.ty.Known c.table := fun b hb =>
      hm _ (List.mem_cons_of_mem _ (List.mem_append_left _ (List.mem_map_of_mem hb)))
    exact .part (Expression.finds_checkArguments h created hparams args hbefore) (fun _ hs => hs)
      fun _ _ _ hs _ => .done hs (hm _ List.mem_cons_self)
  | .index position, hbefore => by
    rw [Action.check]
    refine .ask hbefore (Context.gives_access h hreceiver) fun base hbase => ?_
    replace hbase : base.ty.Known c.table := hbase
    generalize base.ty = found at hbase
    cases found with
    | array element =>
      refine .part (Expression.finds_check h created position hbefore) (fun _ hs => hs)
        fun s ty _ hs hty => ?_
      refine .ask hs (Context.gives_require (AllKnown.nil.cons hty)) fun _ _ => ?_
      exact .done hs (by rintro name ⟨⟩)
    | _ => exact .stop hbefore (.mismatch (AllKnown.nil.cons hbase))
  | .newInstance args, hbefore => by
    rw [Action.check]
    refine .ask hbefore (Context.gives_requireHead receiver) fun _ _ => ?_
    refine .ask hbefore Context.gives_createdStruct fun s hs => ?_
    refine .ask hbefore (Context.gives_constructorParams h hs args.length) fun params hparams => ?_
    refine .ask hbefore (Context.gives_requireArity _ _) fun _ _ => ?_
    refine .part (Expression.finds_checkArguments h created hparams args hbefore) (fun _ hs => hs)
      fun _ _ _ hargs _ => .done hargs ?_
    rintro name ⟨⟩
    exact SymbolTable.contains_iff_struct?.2 ⟨s, hs⟩
  | .newArray dimension, hbefore => by
    rw [Action.check]
    refine .ask hbefore (Context.gives_requireHead receiver) fun _ _ => ?_
    cases Primitive.ofName? token.lexeme with
    | none => exact .stop hbefore (.refuse rfl rfl)
    | some element =>
      refine .part (Expression.finds_check h created dimension hbefore) (fun _ hs => hs)
        fun s ty _ hs hty => ?_
      refine .ask hs (Context.gives_require (AllKnown.nil.cons hty)) fun _ _ => ?_
      exact .done hs (by rintro name ⟨⟩)
  | .group inner, hbefore => by
    rw [Action.check]
    refine .ask hbefore (Context.gives_requireHead receiver) fun _ _ => ?_
    exact .part (Expression.finds_check h created inner hbefore) (fun _ hs => hs)
      fun _ _ _ hs hty => .done hs hty

theorem Expression.finds_checkArguments (h : c.Closed) (created : NameSet) {params : List Binding}
    (hparams : ∀ b ∈ params, b.ty.Known c.table) : ∀ args : List (Expression (Option Ty)),
    ResultsKnown c.table (Expression.allResults args) →
      (Expression.checkArguments c params args created).Finds c.table Expression.allResults
        fun _ => True
  | [], hbefore => by
    cases params with
    | nil => exact .done hbefore trivial
    | cons param params => exact .done hbefore trivial
  | arg :: args, hbefore => by
    cases params with
    | nil => exact .done hbefore trivial
    | cons param params =>
      rw [Expression.checkArguments]
      obtain ⟨hparam, hparams⟩ := List.forall_mem_cons.1 hparams
      obtain ⟨harg, hargs⟩ := ResultsKnown.append_iff.1 hbefore
      refine .part (Expression.finds_check h created arg harg) (fun s hs => hs.append hargs)
        fun s ty names hs hty => ?_
      have htypes := (AllKnown.nil.cons hparam).cons hty
      refine .ask (hs.append hargs) (Context.gives_requireAssignable htypes) fun _ _ => ?_
      exact .part (Expression.finds_checkArguments h names hparams args hargs)
        (fun _ hr => hs.append hr) fun _ _ _ hr _ => .done (hs.append hr) trivial

end

/-! ## Sentences -/

theorem Expression.finds_checkCondition (h : c.Closed) (created : NameSet)
    (e : Expression (Option Ty)) (hbefore : ResultsKnown c.table e.results) :
    (e.checkCondition c created).Finds c.table Expression.results fun _ => True := by
  refine .part (Expression.finds_check h created e hbefore) (fun _ hs => hs) fun s ty _ hs hty => ?_
  refine .ask hs (Context.gives_require (AllKnown.nil.cons hty)) fun _ _ => ?_
  exact .done hs trivial

theorem Sentence.finds_checkAssignment (h : c.Closed) (created : NameSet)
    (target : Chain (Option Ty)) (token : Token) (value : Expression (Option Ty))
    (hbefore : ResultsKnown c.table (target.results ++ value.results)) :
    (Sentence.checkAssignment c target token value created).Finds c.table Sentence.results
      fun _ => True := by
  obtain ⟨htarget, hvalue⟩ := ResultsKnown.append_iff.1 hbefore
  rw [Sentence.checkAssignment]
  cases target.last.isAssignable with
  | false => exact .stop hbefore (.refuse rfl rfl)
  | true =>
    refine .part (Chain.finds_check h created target htarget) (fun s hs => hs.append hvalue)
      fun s expected names hs hexpected => ?_
    refine .part (Expression.finds_check h names value hvalue) (fun v hv => hs.append hv)
      fun v found _ hv hfound => ?_
    have htypes := (AllKnown.nil.cons hexpected).cons hfound
    refine .ask (hs.append hv) (Context.gives_requireAssignable htypes) fun _ _ => ?_
    exact .done (hs.append hv) trivial

theorem Sentence.finds_checkReturn (h : c.Closed) (created : NameSet) (token : Token)
    (value : Option (Expression (Option Ty)))
    (hbefore : ResultsKnown c.table (Expression.allResults value.toList)) :
    (Sentence.checkReturn c token value created).Finds c.table Sentence.results fun _ => True := by
  have hreturns : c.method.returnType.Known c.table := h.method _ List.mem_cons_self
  rw [Sentence.checkReturn.eq_def]
  generalize c.method.returnType = expected at hreturns
  cases value with
  | none =>
    cases expected with
    | void => exact .done hbefore trivial
    | _ => exact .stop hbefore (.mismatch (AllKnown.nil.cons hreturns))
  | some value =>
    obtain ⟨hvalue, hnil⟩ := ResultsKnown.append_iff.1 hbefore
    cases expected with
    | void => exact .stop hbefore (.refuse rfl rfl)
    | _ =>
      refine .part (Expression.finds_check h created value hvalue) (fun s hs => hs.append hnil)
        fun s found _ hs hfound => ?_
      have htypes := (AllKnown.nil.cons hreturns).cons hfound
      refine .ask (hs.append hnil) (Context.gives_requireAssignable htypes) fun _ _ => ?_
      exact .done (hs.append hnil) trivial

mutual

theorem Sentence.finds_check (h : c.Closed) (created : NameSet) : ∀ s : Sentence (Option Ty),
    ResultsKnown c.table s.results →
      (s.check c created).Finds c.table Sentence.results fun _ => True
  | .block sentences, hbefore => by
    rw [Sentence.check]
    exact .part (Sentence.finds_checkAll h created sentences hbefore) (fun _ hs => hs)
      fun _ _ _ hs _ => .done hs trivial
  | .conditional token condition thenBranch none, hbefore => by
    rw [Sentence.check]
    obtain ⟨hcondition, hbranches⟩ := ResultsKnown.append_iff.1 hbefore
    obtain ⟨hthen, hnil⟩ := ResultsKnown.append_iff.1 hbranches
    refine .part (Expression.finds_checkCondition h created condition hcondition)
      (fun p hp => hp.append hbranches) fun p _ names hp _ => ?_
    exact .part (Sentence.finds_check h names thenBranch hthen)
      (fun q hq => hp.append (hq.append hnil))
      fun q _ _ hq _ => .done (hp.append (hq.append hnil)) trivial
  | .conditional token condition thenBranch (some otherwise), hbefore => by
    rw [Sentence.check]
    obtain ⟨hcondition, hbranches⟩ := ResultsKnown.append_iff.1 hbefore
    obtain ⟨hthen, hotherwise⟩ := ResultsKnown.append_iff.1 hbranches
    refine .part (Expression.finds_checkCondition h created condition hcondition)
      (fun p hp => hp.append hbranches) fun p _ names hp _ => ?_
    refine .part (Sentence.finds_check h names thenBranch hthen)
      (fun q hq => hp.append (hq.append hotherwise)) fun q _ names hq _ => ?_
    exact .part (Sentence.finds_check h names otherwise hotherwise)
      (fun r hr => hp.append (hq.append hr))
      fun r _ _ hr _ => .done (hp.append (hq.append hr)) trivial
  | .loop token condition body, hbefore => by
    rw [Sentence.check]
    obtain ⟨hcondition, hbody⟩ := ResultsKnown.append_iff.1 hbefore
    refine .part (Expression.finds_checkCondition h created condition hcondition)
      (fun p hp => hp.append hbody) fun p _ names hp _ => ?_
    exact .part (Sentence.finds_check h names body hbody) (fun q hq => hp.append hq)
      fun q _ _ hq _ => .done (hp.append hq) trivial
  | .assignment target token value, hbefore => by
    rw [Sentence.check]
    exact Sentence.finds_checkAssignment h created target token value hbefore
  | .giveBack token value, hbefore => by
    rw [Sentence.check]
    exact Sentence.finds_checkReturn h created token value hbefore
  | .expression e, hbefore => by
    rw [Sentence.check]
    exact .part (Expression.finds_check h created e hbefore) (fun _ hs => hs)
      fun _ _ _ hs _ => .done hs trivial

theorem Sentence.finds_checkAll (h : c.Closed) (created : NameSet) :
    ∀ ss : List (Sentence (Option Ty)), ResultsKnown c.table (Sentence.allResults ss) →
      (Sentence.checkAll c ss created).Finds c.table Sentence.allResults fun _ => True
  | [], hbefore => .done hbefore trivial
  | s :: rest, hbefore => by
    rw [Sentence.checkAll]
    obtain ⟨hs, hrest⟩ := ResultsKnown.append_iff.1 hbefore
    refine .part (Sentence.finds_check h created s hs) (fun p hp => hp.append hrest)
      fun p _ names hp _ => ?_
    exact .part (Sentence.finds_checkAll h names rest hrest) (fun q hq => hp.append hq)
      fun q _ _ hq _ => .done (hp.append hq) trivial

end

/-- A body is given known types. -/
theorem Block.finds_check (h : c.Closed) (created : NameSet) (b : Block (Option Ty))
    (hbefore : ResultsKnown c.table b.results) :
    (b.check c created).Finds c.table Block.results fun _ => True :=
  Sentence.finds_checkAll h created b hbefore

/-- No body is refused for a gap in the table, whatever results it carries. -/
theorem Block.isGap_of_check (h : c.Closed) {b : Block (Option Ty)} {created : NameSet}
    {e : SemanticError} (he : (b.check c created).answer = .error e) : e.cause.isGap = false := by
  have hblank : b.blank.infer c = b.infer c := Sentence.inferAll_map c _ b
  rw [Block.answer_check, ← hblank, ← Block.answer_check _ created] at he
  exact ((b.blank.finds_check h created (.blank b)).answer.of_error he).isGap

/-! ## Completed tables -/

/-- Whatever is checked in a context, all types that are found are known: those that are answered and
those that stand in the tree, also after a refusal. -/
structure Context.FindsKnown (c : Context) : Prop where
  /-- A link hands on a known type, if what it is applied to has one. -/
  links : ∀ receiver, (∀ r, receiver = some r → r.Known c.table) →
    ∀ (link : Link (Option Ty)) created, ResultsKnown c.table link.results →
      (link.check c receiver created).Finds c.table Link.results (Receiver.Known c.table)
  expressions : ∀ (e : Expression (Option Ty)) created, ResultsKnown c.table e.results →
    (e.check c created).Finds c.table Expression.results (Ty.Known c.table)
  blocks : ∀ (b : Block (Option Ty)) created, ResultsKnown c.table b.results →
    (b.check c created).Finds c.table Block.results fun _ => True

theorem Context.Closed.findsKnown (h : c.Closed) : c.FindsKnown where
  links _ hreceiver link created hbefore := link.finds_check h created hreceiver hbefore
  expressions e created hbefore := e.finds_check h created hbefore
  blocks b created hbefore := b.finds_check h created hbefore

namespace SymbolTable

variable {u t : SymbolTable}

/-- A completed table is closed. -/
theorem Completion.closed (h : Completion u t) (hstores : u.StoresAwaited) : t.Closed where
  name_eq _ _ hs := h.name_eq hs
  builtin n hn := by
    rw [h.contains_eq]
    by_cases hroot : n = Builtin.root
    · obtain ⟨children, hstruct⟩ := h.sound.registry.root
      exact contains_iff_struct?.2 ⟨_, hroot ▸ hstruct⟩
    · obtain ⟨b, hb⟩ := NameMap.contains_iff.1 hn
      exact contains_iff_struct?.2 ⟨b, h.sound.registry.builtin n b hroot hb⟩
  types := h.typesHave hstores

/-- The methods of a closed table can be checked in it. -/
theorem Closed.context (h : t.Closed) {owner : Option String} {kind : MethodKind} {name : String}
    {m : Method} (hm : t.method? owner kind name = some m) : (Context.mk t m).Closed := by
  refine ⟨h, fun ty hty => Ty.Over.known ?_⟩
  cases owner with
  | none => exact h.types.start m hm ty hty
  | some owner =>
    obtain ⟨s, hs, hm⟩ := Option.bind_eq_some_iff.1 hm
    have htypes := h.types.structs owner s hs
    cases kind with
    | constructor => exact htypes.constructor m hm ty hty
    | start | onInstance | static => exact htypes.methods name m hm ty hty

/-- No type of the table names a struct that is not registered, and neither does any type that a
check in it finds. -/
structure Resolved (t : SymbolTable) : Prop where
  /-- The types of attributes, parameters, locals and results are `void`, primitive, arrays or
  registered structs. -/
  stored : t.TypesHave (Ty.Over fun n => t.contains n = true)
  found : ∀ owner kind name m, t.method? owner kind name = some m → (Context.mk t m).FindsKnown
  /-- The struct of a receiver is never missing. -/
  receivers : ∀ owner kind name m, t.method? owner kind name = some m →
    ∀ (b : Block (Option Ty)) created e, (b.check ⟨t, m⟩ created).answer = .error e →
      ∀ struct, e.cause ≠ .unregisteredReceiver struct

/-- After any calls, failed or not, and a first completion that succeeds, every type names a
registered struct. -/
theorem resolved_of_consolidate {calls : List Call}
    (hrun : consolidate.run (declared calls) = .ok () t) : t.Resolved := by
  have hclosed := (completion_of_consolidate hrun).closed (storesAwaited_declared calls)
  refine ⟨hclosed.types, fun _ _ _ _ hm => (hclosed.context hm).findsKnown, ?_⟩
  intro _ _ _ m hm b created e he struct heq
  have hgap := Block.isGap_of_check (hclosed.context hm) he
  rw [heq] at hgap
  cases hgap

/-- Calls that use the struct `B` as a type before it is declared: in an attribute of its parent `A`,
and in a method that takes a `B` and an array and returns a `B`. -/
def forwardCalls : List Call :=
  let struct (name : String) := Token.builtin .structId name
  let member (name : String) := Token.builtin .objectId name
  let ints := Token.builtin .arrayType "Array Int"
  [.struct (struct "A") none .structural, .var (member "x") (struct "B") false,
   .struct (struct "A") none .implementation, .method (member ".") .constructor none,
   .method (member "f") .onInstance (some (struct "B")), .param (member "b") (struct "B"),
   .var (member "xs") ints false,
   .struct (struct "B") (some (struct "A")) .structural,
   .struct (struct "B") none .implementation, .method (member ".") .constructor none]

theorem resolved_of_forwardCalls :
    ∃ t m, consolidate.run (declared forwardCalls) = .ok () t ∧
      t.method? (some "B") .onInstance "f" = some m ∧
      m.types = [.struct "B", .struct "B", .array .int] ∧ t.Resolved := by
  have hrun := run_of_succeeds (x := consolidate) (s := declared forwardCalls) (by decide +kernel)
  have hfound : ((stateAfter consolidate (declared forwardCalls)).method? (some "B") .onInstance
      "f").map Method.types = some [.struct "B", .struct "B", .array .int] := by
    decide +kernel
  obtain ⟨m, hm, htypes⟩ := Option.map_eq_some_iff.1 hfound
  exact ⟨_, m, hrun, hm, htypes, resolved_of_consolidate hrun⟩

end SymbolTable

end StructLang
