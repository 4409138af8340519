import StructLang.Proofs.Inference
import StructLang.Proofs.TypingRules

/-!
# The types that a check stores

The checker does what `infer` says: it gives the same answer (`answer_check`), and where that is a
tree with types, the checker leaves these types in the tree that it was given, and it has collected
the names that the tree creates (`check_eq_of_infer`).

One rule for each step of a check compares it with the step of the inference (`Checking.part_meets`,
`Checking.ask_meets`, `Checking.done_meets`); the two recursions are then compared node by node.  A
whole analysis is compared in `Program.analyze_eq`.
-/

namespace StructLang

variable {α β : Type}

/-! ## Steps -/

variable {ρ ρ' σ τ : Type}

/-- The end of a check is as foreseen: with the tree, the structs and the answer that were found, or
with the fault. -/
def Checked.Meets (r : Checked τ α) :
    Except SemanticError (τ × NameSet × α) → Prop
  | .ok (tree, created, a) => r = ⟨tree, created, .ok a⟩
  | .error e => r.answer = .error e

section Meets

variable {created : NameSet} {view : ρ → σ × NameSet × α}
  {view' : ρ' → τ × NameSet × β}

theorem Checking.part_meets {check : Checking σ α} {x : Except SemanticError ρ} {place : σ → τ}
    {next : σ → α → Checking τ β} {k : ρ → Except SemanticError ρ'}
    (hcheck : (check created).Meets (x.map view))
    (hnext : ∀ r, x = .ok r →
      (next (view r).1 (view r).2.2 (view r).2.1).Meets ((k r).map view')) :
    (check.part place next created).Meets ((x >>= k).map view') := by
  cases x with
  | error e =>
    rcases hend : check created with ⟨tree, names, answer⟩
    rw [hend] at hcheck
    cases (hcheck : answer = _)
    show (Checking.part check place next created).answer = _
    rw [Checking.part, hend]
  | ok r =>
    have hend : check created = ⟨(view r).1, (view r).2.1, .ok (view r).2.2⟩ := hcheck
    have hsame : Checking.part check place next created =
        next (view r).1 (view r).2.2 (view r).2.1 := by
      rw [Checking.part, hend]
    rw [hsame]
    exact hnext r rfl

theorem Checking.ask_meets {tree : τ} {rule : Except SemanticError α}
    {next : α → Checking τ β} {k : α → Except SemanticError ρ'}
    (hnext : ∀ a, rule = .ok a → (next a created).Meets ((k a).map view')) :
    (Checking.ask tree rule next created).Meets ((rule >>= k).map view') := by
  cases rule with
  | error e => rfl
  | ok a => exact hnext a rfl

/-- A check that ends meets what was foreseen if the collected structs are the same. -/
theorem Checking.done_meets {tree : τ} {a : α} {names : NameSet} (h : created = names) :
    (Checking.done tree a created).Meets (.ok (tree, names, a)) := by
  rw [h]
  rfl

end Meets

theorem Link.result_of_infer {c : Context} {receiver : Option Receiver} {link : Link α}
    {link' : Link Ty} {result : Receiver} (h : link.infer c receiver = .ok (link', result)) :
    link'.result = result.ty := by
  obtain ⟨token, action, before⟩ := link
  rw [Link.infer] at h
  cases haction : action.infer c receiver token with
  | error e =>
    rw [haction] at h
    cases h
  | ok typed =>
    rw [haction] at h
    cases h
    rfl

/-- How the check of an expression ends, given its types. -/
def Expression.stored (created : NameSet) (e : Expression Ty) :
    Expression (Option Ty) × NameSet × Ty :=
  (e.map some, created.insertAll e.created, e.result)

def Chain.stored (created : NameSet) (chain : Chain Ty) : Chain (Option Ty) × NameSet × Ty :=
  (chain.map some, created.insertAll chain.created, chain.result)

/-- The type of the last of some links; that of what is handed to them when there is none. -/
def Link.lastType (receiver : Receiver) (links : List (Link Ty)) : Ty :=
  (links.getLast?.map Link.result).getD receiver.ty

theorem Chain.result_eq_lastType {head : Link Ty} {rest : List (Link Ty)} {receiver : Receiver}
    (h : head.result = receiver.ty) : Chain.result ⟨head, rest⟩ = Link.lastType receiver rest := by
  rw [Chain.result, Chain.last, Link.lastType, ← h]
  cases rest.getLast? <;> rfl

theorem Link.lastType_cons {receiver next : Receiver} {link : Link Ty} {rest : List (Link Ty)}
    (h : link.result = next.ty) : Link.lastType receiver (link :: rest) = Link.lastType next rest := by
  rw [Link.lastType, Link.lastType, List.getLast?_cons, ← h]
  cases rest.getLast? <;> rfl

def Link.storedAll (created : NameSet) (receiver : Receiver) (links : List (Link Ty)) :
    List (Link (Option Ty)) × NameSet × Ty :=
  (Link.mapAll some links, created.insertAll (Link.allCreated links), Link.lastType receiver links)

def Link.stored (created : NameSet) (x : Link Ty × Receiver) :
    Link (Option Ty) × NameSet × Receiver :=
  (x.1.map some, created.insertAll x.1.created, x.2)

def Action.stored (created : NameSet) (token : Token) (x : Action Ty × Receiver) :
    Action (Option Ty) × NameSet × Receiver :=
  (x.1.map some, created.insertAll (x.1.created token), x.2)

def Expression.storedAll (created : NameSet) (es : List (Expression Ty)) :
    List (Expression (Option Ty)) × NameSet × Unit :=
  (Expression.mapAll some es, created.insertAll (Expression.allCreated es), ())

variable {c : Context}

mutual

theorem Expression.check_meets (created : NameSet) : ∀ e : Expression (Option Ty),
    (e.check c created).Meets ((e.infer c).map (Expression.stored created))
  | .access chain => by
    rw [Expression.check, Expression.infer]
    refine Checking.part_meets (Chain.check_meets created chain) fun typed _ => ?_
    rfl
  | .unary operator operand before => by
    rw [Expression.check, Expression.infer]
    cases UnaryOperator.ofKind? operator.kind with
    | none => rfl
    | some op =>
      refine Checking.ask_meets fun _ _ => ?_
      refine Checking.part_meets (Chain.check_meets created operand) fun typed _ => ?_
      refine Checking.ask_meets fun result _ => ?_
      rfl
  | .binary left operator right before => by
    rw [Expression.check, Expression.infer]
    cases BinaryOperator.ofKind? operator.kind with
    | none => rfl
    | some op =>
      refine Checking.part_meets (Expression.check_meets created left) fun left' _ => ?_
      refine Checking.part_meets (Expression.check_meets _ right) fun right' _ => ?_
      refine Checking.ask_meets fun result _ => ?_
      exact Checking.done_meets (NameSet.insertAll_append _ _ _).symm

theorem Chain.check_meets (created : NameSet) : ∀ chain : Chain (Option Ty),
    (chain.check c created).Meets ((chain.infer c).map (Chain.stored created))
  | ⟨head, rest⟩ => by
    rw [Chain.check, Chain.infer]
    refine Checking.part_meets (Link.check_meets created none head) fun typed hhead => ?_
    obtain ⟨⟨token, action, ty⟩, receiver⟩ := typed
    refine Checking.part_meets (Link.checkRest_meets _ token receiver rest) fun rest' _ => ?_
    dsimp only [Link.storedAll]
    rw [← Chain.result_eq_lastType (Link.result_of_infer hhead)]
    exact Checking.done_meets (NameSet.insertAll_append _ _ _).symm

theorem Link.checkRest_meets (created : NameSet) (token : Token) (receiver : Receiver) :
    ∀ links : List (Link (Option Ty)), (Link.checkRest c token receiver links created).Meets
      ((Link.inferRest c token receiver links).map (Link.storedAll created receiver))
  | [] => by
    rw [Link.checkRest.eq_def, Link.inferRest.eq_def]
    cases receiver <;> rfl
  | link :: rest => by
    rw [Link.checkRest, Link.inferRest]
    refine Checking.part_meets (Link.check_meets created _ link) fun typed hlink => ?_
    obtain ⟨⟨token', action, ty⟩, next⟩ := typed
    refine Checking.part_meets (Link.checkRest_meets _ token' next rest) fun rest' _ => ?_
    dsimp only [Link.storedAll]
    rw [← Link.lastType_cons (Link.result_of_infer hlink)]
    exact Checking.done_meets (NameSet.insertAll_append _ _ _).symm

theorem Link.check_meets (created : NameSet) (receiver : Option Receiver) :
    ∀ link : Link (Option Ty), (link.check c receiver created).Meets
      ((link.infer c receiver).map (Link.stored created))
  | ⟨token, action, before⟩ => by
    rw [Link.check, Link.infer]
    refine Checking.part_meets (Action.check_meets created receiver token action) fun typed _ => ?_
    rfl

theorem Action.check_meets (created : NameSet) (receiver : Option Receiver) (token : Token) :
    ∀ action : Action (Option Ty), (action.check c receiver token created).Meets
      ((action.infer c receiver token).map (Action.stored created token))
  | .simple => by
    rw [Action.check, Action.infer]
    exact Checking.ask_meets fun result _ => rfl
  | .call args => by
    rw [Action.check, Action.infer]
    refine Checking.ask_meets fun m _ => ?_
    refine Checking.ask_meets fun _ harity => ?_
    have hlength := Context.requireArity_eq_ok.1 harity
    refine Checking.part_meets (Expression.checkArguments_meets created m.params args hlength)
      fun args' _ => ?_
    rfl
  | .index position => by
    rw [Action.check, Action.infer]
    refine Checking.ask_meets fun base _ => ?_
    dsimp only
    cases base.ty with
    | array element =>
      refine Checking.part_meets (Expression.check_meets created position) fun position' _ => ?_
      dsimp only [Expression.stored]
      rw [Expression.position_map]
      exact Checking.ask_meets fun _ _ => rfl
    | _ => rfl
  | .newInstance args => by
    rw [Action.check, Action.infer]
    refine Checking.ask_meets fun _ _ => ?_
    refine Checking.ask_meets fun s _ => ?_
    refine Checking.ask_meets fun params _ => ?_
    refine Checking.ask_meets fun _ harity => ?_
    have hlength := Context.requireArity_eq_ok.1 harity
    refine Checking.part_meets (Expression.checkArguments_meets created params args hlength)
      fun args' _ => ?_
    exact Checking.done_meets (NameSet.insert_insertAll _ _ _)
  | .newArray dimension => by
    rw [Action.check, Action.infer]
    refine Checking.ask_meets fun _ _ => ?_
    cases Primitive.ofName? token.lexeme with
    | none => rfl
    | some element =>
      refine Checking.part_meets (Expression.check_meets created dimension) fun dimension' _ => ?_
      dsimp only [Expression.stored]
      rw [Expression.position_map]
      exact Checking.ask_meets fun _ _ => rfl
  | .group inner => by
    rw [Action.check, Action.infer]
    refine Checking.ask_meets fun _ _ => ?_
    refine Checking.part_meets (Expression.check_meets created inner) fun inner' _ => ?_
    rfl

theorem Expression.checkArguments_meets (created : NameSet) :
    ∀ (params : List Binding) (args : List (Expression (Option Ty))),
      params.length = args.length → (Expression.checkArguments c params args created).Meets
        ((Expression.inferArguments c params args).map (Expression.storedAll created))
  | [], [], _ => rfl
  | param :: params, arg :: args, hlength => by
    rw [Expression.checkArguments, Expression.inferArguments]
    refine Checking.part_meets (Expression.check_meets created arg) fun arg' _ => ?_
    dsimp only [Expression.stored]
    rw [Expression.position_map]
    refine Checking.ask_meets fun _ _ => ?_
    have hrest : params.length = args.length := Nat.succ.inj hlength
    refine Checking.part_meets (Expression.checkArguments_meets _ params args hrest)
      fun args' _ => ?_
    exact Checking.done_meets (NameSet.insertAll_append _ _ _).symm

end

/-- How the check of a sentence ends, given its types. -/
def Sentence.stored (created : NameSet) (s : Sentence Ty) :
    Sentence (Option Ty) × NameSet × Unit :=
  (s.map some, created.insertAll s.created, ())

def Sentence.storedAll (created : NameSet) (ss : List (Sentence Ty)) :
    List (Sentence (Option Ty)) × NameSet × Unit :=
  (Sentence.mapAll some ss, created.insertAll (Sentence.allCreated ss), ())

theorem Expression.checkCondition_meets (created : NameSet) (e : Expression (Option Ty)) :
    (e.checkCondition c created).Meets ((e.inferCondition c).map fun typed =>
      (typed.map some, created.insertAll typed.created, ())) := by
  refine Checking.part_meets (Expression.check_meets created e) fun typed _ => ?_
  dsimp only [Expression.stored]
  rw [Expression.position_map]
  exact Checking.ask_meets fun _ _ => rfl

theorem Sentence.checkAssignment_meets (created : NameSet) (target : Chain (Option Ty))
    (token : Token) (value : Expression (Option Ty)) :
    (Sentence.checkAssignment c target token value created).Meets
      ((Sentence.inferAssignment c target token value).map (Sentence.stored created)) := by
  rw [Sentence.checkAssignment, Sentence.inferAssignment]
  cases target.last.isAssignable with
  | false => rfl
  | true =>
    refine Checking.part_meets (Chain.check_meets created target) fun target' _ => ?_
    refine Checking.part_meets (Expression.check_meets _ value) fun value' _ => ?_
    refine Checking.ask_meets fun _ _ => ?_
    exact Checking.done_meets (NameSet.insertAll_append _ _ _).symm

theorem Sentence.checkReturn_meets (created : NameSet) (token : Token)
    (value : Option (Expression (Option Ty))) :
    (Sentence.checkReturn c token value created).Meets
      ((Sentence.inferReturn c token value).map (Sentence.stored created)) := by
  rw [Sentence.checkReturn.eq_def, Sentence.inferReturn.eq_def]
  cases value with
  | none => cases c.method.returnType <;> rfl
  | some value =>
    cases c.method.returnType with
    | void => rfl
    | _ =>
      refine Checking.part_meets (Expression.check_meets created value) fun typed _ => ?_
      dsimp only [Expression.stored]
      rw [Expression.position_map]
      exact Checking.ask_meets fun _ _ => rfl

mutual

theorem Sentence.check_meets (created : NameSet) : ∀ s : Sentence (Option Ty),
    (s.check c created).Meets ((s.infer c).map (Sentence.stored created))
  | .block sentences => by
    rw [Sentence.check, Sentence.infer]
    exact Checking.part_meets (Sentence.checkAll_meets created sentences) fun _ _ => rfl
  | .conditional token condition thenBranch none => by
    rw [Sentence.check, Sentence.infer]
    refine Checking.part_meets (Expression.checkCondition_meets created condition) fun _ _ => ?_
    refine Checking.part_meets (Sentence.check_meets _ thenBranch) fun _ _ => ?_
    refine Checking.done_meets ?_
    rw [Sentence.created, List.append_nil, NameSet.insertAll_append]
    rfl
  | .conditional token condition thenBranch (some otherwise) => by
    rw [Sentence.check, Sentence.infer]
    refine Checking.part_meets (Expression.checkCondition_meets created condition) fun _ _ => ?_
    refine Checking.part_meets (Sentence.check_meets _ thenBranch) fun _ _ => ?_
    refine Checking.part_meets (Sentence.check_meets _ otherwise) fun _ _ => ?_
    refine Checking.done_meets ?_
    rw [Sentence.created, NameSet.insertAll_append, NameSet.insertAll_append]
    rfl
  | .loop token condition body => by
    rw [Sentence.check, Sentence.infer]
    refine Checking.part_meets (Expression.checkCondition_meets created condition) fun _ _ => ?_
    refine Checking.part_meets (Sentence.check_meets _ body) fun _ _ => ?_
    exact Checking.done_meets (NameSet.insertAll_append _ _ _).symm
  | .assignment target token value => by
    rw [Sentence.check, Sentence.infer]
    exact Sentence.checkAssignment_meets created target token value
  | .giveBack token value => by
    rw [Sentence.check, Sentence.infer]
    exact Sentence.checkReturn_meets created token value
  | .expression e => by
    rw [Sentence.check, Sentence.infer]
    exact Checking.part_meets (Expression.check_meets created e) fun _ _ => rfl

theorem Sentence.checkAll_meets (created : NameSet) : ∀ ss : List (Sentence (Option Ty)),
    (Sentence.checkAll c ss created).Meets
      ((Sentence.inferAll c ss).map (Sentence.storedAll created))
  | [] => rfl
  | s :: rest => by
    rw [Sentence.checkAll, Sentence.inferAll]
    refine Checking.part_meets (Sentence.check_meets created s) fun _ _ => ?_
    refine Checking.part_meets (Sentence.checkAll_meets _ rest) fun _ _ => ?_
    exact Checking.done_meets (NameSet.insertAll_append _ _ _).symm

end

/-! ## Whole trees -/

namespace Checked.Meets

variable {r : Checked τ α} {x : Except SemanticError ρ} {view : ρ → τ × NameSet × α}

theorem answer_eq (h : r.Meets (x.map view)) : r.answer = x.map fun found => (view found).2.2 := by
  cases x with
  | error e => exact h
  | ok found => exact congrArg Checked.answer h

theorem eq_of_ok {found : ρ} (h : r.Meets (x.map view)) (hx : x = .ok found) :
    r = ⟨(view found).1, (view found).2.1, .ok (view found).2.2⟩ := by
  rw [hx] at h
  exact h

end Checked.Meets

theorem Expression.answer_check (e : Expression (Option Ty)) (created : NameSet) :
    (e.check c created).answer = (e.infer c).map Expression.result :=
  (e.check_meets created).answer_eq

theorem Expression.answer_check_eq_ok {e : Expression (Option Ty)} {created : NameSet} {ty : Ty} :
    (e.check c created).answer = .ok ty ↔ ∃ typed, e.infer c = .ok typed ∧ typed.result = ty := by
  rw [Expression.answer_check, map_eq_ok_iff]

theorem Expression.check_eq_of_infer {e : Expression (Option Ty)} {typed : Expression Ty}
    (h : e.infer c = .ok typed) (created : NameSet) :
    e.check c created = ⟨typed.map some, created.insertAll typed.created, .ok typed.result⟩ :=
  (e.check_meets created).eq_of_ok h

theorem Sentence.answer_check_eq_ok {s : Sentence (Option Ty)} {created : NameSet} :
    (s.check c created).answer = .ok () ↔ ∃ typed, s.infer c = .ok typed := by
  rw [(s.check_meets created).answer_eq, map_eq_ok_iff]
  exact exists_congr fun typed => and_iff_left rfl

theorem Link.answer_check (link : Link (Option Ty)) (receiver : Option Receiver)
    (created : NameSet) :
    (link.check c receiver created).answer = (link.infer c receiver).map Prod.snd :=
  (link.check_meets created receiver).answer_eq

theorem Link.checkRest_eq_of_infer {links : List (Link (Option Ty))} {typed : List (Link Ty)}
    {token : Token} {receiver : Receiver} (h : Link.inferRest c token receiver links = .ok typed)
    (created : NameSet) : Link.checkRest c token receiver links created =
      ⟨Link.mapAll some typed, created.insertAll (Link.allCreated typed),
        .ok (Link.lastType receiver typed)⟩ :=
  (Link.checkRest_meets created token receiver links).eq_of_ok h

theorem Block.answer_check (b : Block (Option Ty)) (created : NameSet) :
    (b.check c created).answer = (b.infer c).map fun _ => () :=
  (Sentence.checkAll_meets created b).answer_eq

theorem Block.answer_check_eq_ok {b : Block (Option Ty)} {created : NameSet} :
    (b.check c created).answer = .ok () ↔ ∃ typed, b.infer c = .ok typed := by
  rw [Block.answer_check, map_eq_ok_iff]
  exact exists_congr fun typed => and_iff_left rfl

/-- Where a body has types, the checker stores them and has collected what the body creates. -/
theorem Block.check_eq_of_infer {b : Block (Option Ty)} {typed : Block Ty}
    (h : b.infer c = .ok typed) (created : NameSet) :
    b.check c created = ⟨typed.map some, created.insertAll typed.created, .ok ()⟩ :=
  (Sentence.checkAll_meets created b).eq_of_ok h

/-! ## Bodies and programs -/

namespace Body

variable (t : SymbolTable)

/-- The body with other results. -/
def map (f : α → β) (b : Body α) : Body β := ⟨b.owner, b.token, b.kind, b.block.map f⟩

/-- The body with its types. -/
def infer (b : Body Unit) : Except SemanticError (Body Ty) :=
  match t.method? b.owner b.kind b.token.lexeme with
  | none => .error ⟨.bodyWithoutMethod b.token.lexeme, b.token.position⟩
  | some m => do return ⟨b.owner, b.token, b.kind, ← b.block.infer ⟨t, m⟩⟩

/-- A body adds what it creates to what was created before. -/
theorem run_check (b : Body Unit) (created : NameSet) :
    (b.check t).run created =
      (b.infer t).map fun typed => (typed.map some, created.insertAll typed.block.created) := by
  rw [check, infer]
  cases t.method? b.owner b.kind b.token.lexeme with
  | none => rfl
  | some m =>
    have hblank : b.block.blank.infer ⟨t, m⟩ = b.block.infer ⟨t, m⟩ :=
      Sentence.inferAll_map ⟨t, m⟩ _ b.block
    dsimp only
    rw [← hblank]
    cases hinfer : b.block.blank.infer ⟨t, m⟩ with
    | error e =>
      have hanswer := b.block.blank.answer_check (c := ⟨t, m⟩) .empty
      rw [hinfer] at hanswer
      rcases hend : b.block.blank.check ⟨t, m⟩ .empty with ⟨tree, names, answer⟩
      rw [hend] at hanswer
      cases (hanswer : answer = .error e)
      rfl
    | ok typed =>
      rw [Block.check_eq_of_infer hinfer]
      show Except.ok (_, created.insertAll (NameSet.insertAll .empty typed.created).names) = _
      rw [NameSet.insertAll_names_insertAll]
      rfl

/-- Bodies are checked one after the other, and what they create is collected. -/
theorem run_mapM_check (bodies : List (Body Unit)) (created : NameSet) :
    (bodies.mapM (check t)).run created = (bodies.mapM (infer t)).map fun typed =>
      (typed.map (map some), created.insertAll (typed.flatMap (·.block.created))) := by
  induction bodies generalizing created with
  | nil => rfl
  | cons b bodies ih =>
    rw [List.mapM_cons, List.mapM_cons, StateT.run_bind, run_check]
    cases b.infer t with
    | error e => rfl
    | ok typed =>
      show ((bodies.mapM (check t)).run _ >>= _) = _
      rw [ih]
      cases bodies.mapM (infer t) with
      | error e => rfl
      | ok rest =>
        show Except.ok (_, (created.insertAll typed.block.created).insertAll _) = _
        rw [← NameSet.insertAll_append]
        rfl

end Body

/-- The outcome of an analysis, given the types of the bodies: they are stored, and the structs that
the bodies create are marked. -/
def Analysis.ofTyped (t : SymbolTable) (bodies : List (Body Ty)) : Analysis where
  table := t.markCreated (.ofList (bodies.flatMap (·.block.created)))
  bodies := bodies.map (Body.map some)

theorem Program.analyze_eq (p : Program) : p.analyze =
    match p.declare.run .new with
    | .error e _ => .error e
    | .ok _ t => (p.bodies.mapM (Body.infer t)).map (Analysis.ofTyped t) := by
  rw [analyze]
  cases p.declare.run .new with
  | error e t => rfl
  | ok _ t =>
    dsimp only
    rw [Body.run_mapM_check]
    cases p.bodies.mapM (Body.infer t) <;> rfl

end StructLang
