import StructLang.Analysis
import StructLang.Proofs.Typing

/-!
# Tokens of a program, and faults in bodies

`tokens` collects the tokens of a tree.  `FaultsAt tokens x` says that a computation that fails does
so at the place of one of some tokens.  It is shown for the rules that look at one token, and from
there for expressions, sentences and bodies: a body is refused at one of its own tokens.

Some faults are reported at the place of an expression that has been checked, which is the place that
it had before (`Expression.position_of_infer`).
-/

namespace StructLang

variable {α β : Type}

/-! ## Tokens -/

mutual

/-- The tokens of an expression. -/
def Expression.tokens : Expression α → List Token
  | .access chain => chain.tokens
  | .unary operator operand _ => operator :: operand.tokens
  | .binary left operator right _ => left.tokens ++ operator :: right.tokens

/-- The tokens of a chain. -/
def Chain.tokens : Chain α → List Token
  | ⟨head, rest⟩ => head.tokens ++ Link.allTokens rest

/-- The tokens of links. -/
def Link.allTokens : List (Link α) → List Token
  | [] => []
  | link :: rest => link.tokens ++ Link.allTokens rest

/-- The tokens of a link. -/
def Link.tokens : Link α → List Token
  | ⟨token, action, _⟩ => token :: action.tokens

/-- The tokens of what a link works on. -/
def Action.tokens : Action α → List Token
  | .simple => []
  | .call args => Expression.allTokens args
  | .index position => position.tokens
  | .newInstance args => Expression.allTokens args
  | .newArray dimension => dimension.tokens
  | .group inner => inner.tokens

/-- The tokens of expressions. -/
def Expression.allTokens : List (Expression α) → List Token
  | [] => []
  | e :: rest => e.tokens ++ Expression.allTokens rest

end

mutual

/-- The tokens of a sentence. -/
def Sentence.tokens : Sentence α → List Token
  | .block sentences => Sentence.allTokens sentences
  | .conditional token condition thenBranch elseBranch =>
    token :: (condition.tokens ++ (thenBranch.tokens ++ match elseBranch with
      | none => []
      | some otherwise => otherwise.tokens))
  | .loop token condition body => token :: (condition.tokens ++ body.tokens)
  | .assignment target token value => target.tokens ++ token :: value.tokens
  | .giveBack token value => token :: Expression.allTokens value.toList
  | .expression e => e.tokens

/-- The tokens of sentences. -/
def Sentence.allTokens : List (Sentence α) → List Token
  | [] => []
  | s :: rest => s.tokens ++ Sentence.allTokens rest

end

/-- The tokens of a body. -/
def Block.tokens (b : Block α) : List Token := Sentence.allTokens b

/-- The tokens of a typed name. -/
def VarDef.tokens (d : VarDef) : List Token := [d.name, d.ty]

/-- The tokens of an attribute. -/
def AttrDef.tokens (d : AttrDef) : List Token := [d.name, d.ty]

/-- The tokens of a struct item. -/
def StructDef.tokens (d : StructDef) : List Token :=
  d.name :: (d.parent.toList ++ d.attributes.flatMap AttrDef.tokens)

/-- The tokens of a method. -/
def MethodDef.tokens (d : MethodDef) : List Token :=
  d.name :: (d.params.flatMap VarDef.tokens ++ d.returnType.toList ++
    d.locals.flatMap VarDef.tokens ++ d.body.tokens)

/-- The tokens of an impl block. -/
def ImplDef.tokens (d : ImplDef) : List Token := d.name :: d.methods.flatMap MethodDef.tokens

/-- The tokens of a start item. -/
def StartDef.tokens (d : StartDef) : List Token :=
  d.token :: (d.locals.flatMap VarDef.tokens ++ d.body.tokens)

/-- The tokens of an item. -/
def Item.tokens : Item → List Token
  | .struct d => d.tokens
  | .impl d => d.tokens
  | .start d => d.tokens

/-- The tokens of a program. -/
def Program.tokens (p : Program) : List Token := p.items.flatMap Item.tokens

/-! ## Places -/

/-- The place of some token of a list. -/
def Position.IsOf (place : Position) (tokens : List Token) : Prop :=
  ∃ token ∈ tokens, place = token.position

theorem Position.IsOf.mono {place : Position} {tokens tokens' : List Token}
    (h : place.IsOf tokens) (hsubset : tokens ⊆ tokens') : place.IsOf tokens' := by
  obtain ⟨token, htoken, hplace⟩ := h
  exact ⟨token, hsubset htoken, hplace⟩

theorem Token.isOf {token : Token} {tokens : List Token} (h : token ∈ tokens) :
    token.position.IsOf tokens :=
  ⟨token, h, rfl⟩

/-- Whatever fails here fails at the place of one of the tokens. -/
def FaultsAt (tokens : List Token) (x : Except SemanticError α) : Prop :=
  ∀ e, x = .error e → e.position.IsOf tokens

namespace FaultsAt

variable {tokens tokens' : List Token} {x : Except SemanticError α}

theorem ok (a : α) : FaultsAt tokens (.ok a : Except SemanticError α) := by
  intro e he
  cases he

theorem error {cause : Cause} {place : Position} (h : place.IsOf tokens) :
    FaultsAt tokens (.error ⟨cause, place⟩ : Except SemanticError α) := by
  rintro _ ⟨⟩
  exact h

theorem mono (h : FaultsAt tokens x) (hsubset : tokens ⊆ tokens') : FaultsAt tokens' x :=
  fun e he => (h e he).mono hsubset

theorem bind {f : α → Except SemanticError β} (hx : FaultsAt tokens x)
    (hf : ∀ a, x = .ok a → FaultsAt tokens (f a)) : FaultsAt tokens (x >>= f) := by
  intro e he
  cases hresult : x with
  | error e' =>
    rw [hresult] at he
    cases he
    exact hx e hresult
  | ok a =>
    rw [hresult] at he
    exact hf a hresult e he

theorem mapM {f : α → Except SemanticError β} {as : List α}
    (hf : ∀ a ∈ as, FaultsAt tokens (f a)) : FaultsAt tokens (as.mapM f) := by
  induction as with
  | nil => exact ok []
  | cons a as ih =>
    rw [List.mapM_cons]
    obtain ⟨ha, has⟩ := List.forall_mem_cons.1 hf
    exact ha.bind fun _ _ => (ih has).bind fun _ _ => ok _

end FaultsAt

/-! ## One token -/

namespace Context

variable {c : Context} {tokens : List Token} {token : Token}

theorem faultsAt_require {holds : Bool} {mismatch : Mismatch} {place : Position}
    (h : place.IsOf tokens) : FaultsAt tokens (require holds mismatch place) := by
  unfold require
  split
  · exact .ok ()
  · exact .error h

theorem faultsAt_requireAssignable {value target : Ty} {mismatch : Mismatch} {place : Position}
    (h : place.IsOf tokens) :
    FaultsAt tokens (c.requireAssignable value target mismatch place) := by
  unfold requireAssignable
  split
  · exact .ok ()
  · exact .error h

theorem faultsAt_visibleAttribute (h : token.position.IsOf tokens) (s : Struct) :
    FaultsAt tokens (c.visibleAttribute s token) := by
  unfold visibleAttribute
  split
  · exact .ok _
  · exact .error h
  · exact .error h

theorem faultsAt_memberStruct (h : token.position.IsOf tokens) (ty : Ty) :
    FaultsAt tokens (c.memberStruct ty token) := by
  unfold memberStruct
  split
  · exact .error h
  · split
    · exact .error h
    · exact .ok _

theorem faultsAt_identifier (h : token.position.IsOf tokens) :
    FaultsAt tokens (c.identifier token) := by
  unfold identifier
  split
  · exact .ok _
  · exact .ok _
  · split
    · exact .error h
    · split
      · exact .error h
      · split
        · exact .error h
        · exact faultsAt_visibleAttribute h _

theorem faultsAt_selfValue (h : token.position.IsOf tokens) :
    FaultsAt tokens (c.selfValue token) := by
  unfold selfValue
  split
  · exact .ok _
  · exact .error h

theorem faultsAt_headAccess (h : token.position.IsOf tokens) :
    FaultsAt tokens (c.headAccess token) := by
  unfold headAccess
  split
  case h_7 => exact faultsAt_selfValue h
  case h_8 => exact faultsAt_identifier h
  case h_9 =>
    split
    · exact .ok _
    · exact .error h
  all_goals exact .ok _

theorem faultsAt_memberAccess (h : token.position.IsOf tokens) (receiver : Receiver) :
    FaultsAt tokens (c.memberAccess receiver token) := by
  unfold memberAccess
  split
  · exact .error h
  · split
    · exact .error h
    · exact (faultsAt_memberStruct h _).bind fun s _ => faultsAt_visibleAttribute h s

theorem faultsAt_access (h : token.position.IsOf tokens) (receiver : Option Receiver) :
    FaultsAt tokens (c.access receiver token) := by
  cases receiver with
  | none => exact faultsAt_headAccess h
  | some receiver => exact faultsAt_memberAccess h receiver

theorem faultsAt_requireHead (h : token.position.IsOf tokens) (receiver : Option Receiver) :
    FaultsAt tokens (requireHead receiver token) := by
  cases receiver with
  | none => exact .ok ()
  | some receiver => exact .error h

theorem faultsAt_callee (h : token.position.IsOf tokens) (receiver : Option Receiver) :
    FaultsAt tokens (c.callee receiver token) := by
  unfold callee
  split
  · split
    · exact .ok _
    · exact .error h
  · split
    · exact .ok _
    · exact .error h
  · exact (faultsAt_memberStruct h _).bind fun _ _ => .ok _

theorem faultsAt_calledMethod (h : token.position.IsOf tokens) (receiver : Option Receiver) :
    FaultsAt tokens (c.calledMethod receiver token) := by
  refine (faultsAt_callee h receiver).bind fun (s, staticOnly) _ => ?_
  dsimp only
  split
  · exact .error h
  · split
    · exact .error h
    · exact .ok _

theorem faultsAt_createdStruct (h : token.position.IsOf tokens) :
    FaultsAt tokens (c.createdStruct token) := by
  unfold createdStruct
  split
  · exact .error h
  · split
    · exact .error h
    · exact .ok _

theorem faultsAt_constructorParams (h : token.position.IsOf tokens) (s : Struct) (args : Nat) :
    FaultsAt tokens (constructorParams s token args) := by
  unfold constructorParams
  split
  · exact .ok _
  · split
    · exact .ok _
    · exact .error h

theorem faultsAt_requireArity (h : token.position.IsOf tokens) (params : List Binding)
    (args : Nat) : FaultsAt tokens (requireArity params token args) := by
  unfold requireArity
  split
  · exact .ok ()
  · exact .error h

theorem faultsAt_unaryType (h : token.position.IsOf tokens) (op : UnaryOperator) (ty : Ty) :
    FaultsAt tokens (unaryType token op ty) := by
  refine (faultsAt_require h).bind fun _ _ => ?_
  cases op with
  | increment | decrement =>
    exact (faultsAt_require h).bind fun _ _ => (faultsAt_require h).bind fun _ _ => .ok _
  | not | plus | minus => exact (faultsAt_require h).bind fun _ _ => .ok _

theorem faultsAt_binaryType (h : token.position.IsOf tokens) (op : BinaryOperator)
    (left right : Ty) : FaultsAt tokens (c.binaryType token op left right) := by
  cases op <;> exact (faultsAt_require h).bind fun _ _ => .ok _

end Context

/-! ## The place of an expression -/

theorem Link.token_mem_tokens (link : Link α) : link.token ∈ link.tokens := by
  obtain ⟨token, action, result⟩ := link
  rw [Link.tokens]
  exact List.mem_cons_self

theorem Expression.isOf_position (e : Expression α) : e.position.IsOf e.tokens := by
  cases e with
  | access chain =>
    obtain ⟨head, rest⟩ := chain
    rw [Expression.tokens, Chain.tokens]
    exact Token.isOf (List.mem_append_left _ head.token_mem_tokens)
  | unary operator operand result =>
    rw [Expression.tokens]
    exact Token.isOf List.mem_cons_self
  | binary left operator right result =>
    rw [Expression.tokens]
    exact Token.isOf (List.mem_append_right _ List.mem_cons_self)

theorem Link.tokens_subset_allTokens {links : List (Link α)} {link : Link α} (h : link ∈ links) :
    link.tokens ⊆ Link.allTokens links := by
  induction links with
  | nil => cases h
  | cons first links ih =>
    rw [Link.allTokens]
    rcases List.mem_cons.1 h with rfl | h
    · exact List.subset_append_left _ _
    · exact List.subset_append_of_subset_right _ (ih h)

theorem Chain.last_token_mem_tokens (chain : Chain α) : chain.last.token ∈ chain.tokens := by
  obtain ⟨head, rest⟩ := chain
  rw [Chain.tokens, Chain.last]
  cases hlast : rest.getLast? with
  | none => exact List.mem_append_left _ head.token_mem_tokens
  | some link =>
    have hmem := List.mem_of_getLast? hlast
    exact List.mem_append_right _ (Link.tokens_subset_allTokens hmem link.token_mem_tokens)

variable {c : Context}

/-- A checked expression stands where the expression stands. -/
theorem Expression.position_of_infer {e : Expression α} {e' : Expression Ty}
    (h : e.infer c = .ok e') : e'.position = e.position := by
  obtain ⟨a, _, hshape, rfl⟩ := Expression.exists_typed h
  rw [position_map, ← position_map forget a, hshape, position_map]

theorem Expression.isOf_position_of_infer {e : Expression α} {e' : Expression Ty}
    (h : e.infer c = .ok e') : e'.position.IsOf e.tokens :=
  position_of_infer h ▸ e.isOf_position

theorem Link.token_of_infer {receiver : Option Receiver} {link : Link α} {link' : Link Ty}
    {result : Receiver} (h : link.infer c receiver = .ok (link', result)) :
    link'.token = link.token := by
  obtain ⟨token, action, _⟩ := link
  rw [Link.infer] at h
  obtain ⟨_, _, heq⟩ := bind_eq_ok_iff.1 h
  cases heq
  rfl

/-! ## Expressions -/

mutual

/-- An expression is refused at one of its tokens. -/
theorem Expression.faultsAt_infer : ∀ e : Expression α, FaultsAt e.tokens (e.infer c)
  | .access chain => by
    rw [Expression.infer, Expression.tokens]
    exact (Chain.faultsAt_infer chain).bind fun _ _ => .ok _
  | .unary operator operand _ => by
    rw [Expression.infer, Expression.tokens]
    have hoperator : operator.position.IsOf (operator :: operand.tokens) :=
      Token.isOf List.mem_cons_self
    split
    · exact .error hoperator
    · refine (Context.faultsAt_require hoperator).bind fun _ _ => ?_
      refine ((Chain.faultsAt_infer operand).mono (List.subset_cons_self _ _)).bind fun _ _ => ?_
      exact (Context.faultsAt_unaryType hoperator _ _).bind fun _ _ => .ok _
  | .binary left operator right _ => by
    rw [Expression.infer, Expression.tokens]
    have hoperator : operator.position.IsOf (left.tokens ++ operator :: right.tokens) :=
      Token.isOf (List.mem_append_right _ List.mem_cons_self)
    split
    · exact .error hoperator
    · refine ((Expression.faultsAt_infer left).mono (List.subset_append_left _ _)).bind
        fun _ _ => ?_
      refine ((Expression.faultsAt_infer right).mono ?_).bind fun _ _ => ?_
      · exact List.subset_append_of_subset_right _ (List.subset_cons_self _ _)
      · exact (Context.faultsAt_binaryType hoperator _ _ _).bind fun _ _ => .ok _

theorem Chain.faultsAt_infer : ∀ chain : Chain α, FaultsAt chain.tokens (chain.infer c)
  | ⟨head, rest⟩ => by
    rw [Chain.infer, Chain.tokens]
    refine ((Link.faultsAt_infer none head).mono (List.subset_append_left _ _)).bind
      fun (checked, receiver) hchecked => ?_
    have htoken : checked.token ∈ head.tokens := Link.token_of_infer hchecked ▸ head.token_mem_tokens
    refine ((Link.faultsAt_inferRest checked.token receiver rest).mono ?_).bind fun _ _ => .ok _
    exact List.cons_subset.2 ⟨List.mem_append_left _ htoken, List.subset_append_right _ _⟩

theorem Link.faultsAt_inferRest (token : Token) (receiver : Receiver) : ∀ links : List (Link α),
    FaultsAt (token :: Link.allTokens links) (Link.inferRest c token receiver links)
  | [] => by
    rw [Link.inferRest.eq_def]
    cases receiver with
    | value ty => exact .ok []
    | struct name => exact .error (Token.isOf List.mem_cons_self)
  | link :: rest => by
    rw [Link.inferRest, Link.allTokens]
    have hlink : link.tokens ⊆ token :: (link.tokens ++ Link.allTokens rest) :=
      List.subset_cons_of_subset _ (List.subset_append_left _ _)
    have hrest : Link.allTokens rest ⊆ token :: (link.tokens ++ Link.allTokens rest) :=
      List.subset_cons_of_subset _ (List.subset_append_right _ _)
    refine ((Link.faultsAt_infer (some receiver) link).mono hlink).bind
      fun (checked, next) hchecked => ?_
    have htoken : checked.token ∈ link.tokens := Link.token_of_infer hchecked ▸ link.token_mem_tokens
    refine ((Link.faultsAt_inferRest checked.token next rest).mono ?_).bind fun _ _ => .ok _
    exact List.cons_subset.2 ⟨hlink htoken, hrest⟩

theorem Link.faultsAt_infer (receiver : Option Receiver) :
    ∀ link : Link α, FaultsAt link.tokens (link.infer c receiver)
  | ⟨token, action, _⟩ => by
    rw [Link.infer, Link.tokens]
    exact (Action.faultsAt_infer receiver token action).bind fun _ _ => .ok _

theorem Action.faultsAt_infer (receiver : Option Receiver) (token : Token) :
    ∀ action : Action α, FaultsAt (token :: action.tokens) (action.infer c receiver token)
  | .simple => by
    rw [Action.infer]
    exact (Context.faultsAt_access (Token.isOf List.mem_cons_self) receiver).bind fun _ _ => .ok _
  | .call args => by
    rw [Action.infer, Action.tokens]
    have htoken : token.position.IsOf (token :: Expression.allTokens args) :=
      Token.isOf List.mem_cons_self
    refine (Context.faultsAt_calledMethod htoken receiver).bind fun m _ => ?_
    refine (Context.faultsAt_requireArity htoken _ _).bind fun _ _ => ?_
    exact ((Expression.faultsAt_inferArguments m.params args).mono
      (List.subset_cons_self _ _)).bind fun _ _ => .ok _
  | .index position => by
    rw [Action.infer, Action.tokens]
    have htoken : token.position.IsOf (token :: position.tokens) := Token.isOf List.mem_cons_self
    have hposition : position.tokens ⊆ token :: position.tokens := List.subset_cons_self _ _
    refine (Context.faultsAt_access htoken receiver).bind fun base _ => ?_
    dsimp only
    split
    · refine ((Expression.faultsAt_infer position).mono hposition).bind fun checked hchecked => ?_
      have hplace := (Expression.isOf_position_of_infer hchecked).mono hposition
      exact (Context.faultsAt_require hplace).bind fun _ _ => .ok _
    · exact .error htoken
  | .newInstance args => by
    rw [Action.infer, Action.tokens]
    have htoken : token.position.IsOf (token :: Expression.allTokens args) :=
      Token.isOf List.mem_cons_self
    refine (Context.faultsAt_requireHead htoken receiver).bind fun _ _ => ?_
    refine (Context.faultsAt_createdStruct htoken).bind fun s _ => ?_
    refine (Context.faultsAt_constructorParams htoken s _).bind fun params _ => ?_
    refine (Context.faultsAt_requireArity htoken _ _).bind fun _ _ => ?_
    exact ((Expression.faultsAt_inferArguments params args).mono
      (List.subset_cons_self _ _)).bind fun _ _ => .ok _
  | .newArray dimension => by
    rw [Action.infer, Action.tokens]
    have htoken : token.position.IsOf (token :: dimension.tokens) := Token.isOf List.mem_cons_self
    have hdimension : dimension.tokens ⊆ token :: dimension.tokens := List.subset_cons_self _ _
    refine (Context.faultsAt_requireHead htoken receiver).bind fun _ _ => ?_
    split
    · exact .error htoken
    · refine ((Expression.faultsAt_infer dimension).mono hdimension).bind fun checked hchecked => ?_
      have hplace := (Expression.isOf_position_of_infer hchecked).mono hdimension
      exact (Context.faultsAt_require hplace).bind fun _ _ => .ok _
  | .group inner => by
    rw [Action.infer, Action.tokens]
    have htoken : token.position.IsOf (token :: inner.tokens) := Token.isOf List.mem_cons_self
    refine (Context.faultsAt_requireHead htoken receiver).bind fun _ _ => ?_
    exact ((Expression.faultsAt_infer inner).mono (List.subset_cons_self _ _)).bind
      fun _ _ => .ok _

theorem Expression.faultsAt_inferArguments : ∀ (params : List Binding) (args : List (Expression α)),
    FaultsAt (Expression.allTokens args) (Expression.inferArguments c params args)
  | [], args => by
    rw [Expression.inferArguments.eq_def]
    exact .ok []
  | _ :: _, [] => .ok []
  | param :: params, arg :: args => by
    rw [Expression.inferArguments, Expression.allTokens]
    have harg : arg.tokens ⊆ arg.tokens ++ Expression.allTokens args := List.subset_append_left _ _
    refine ((Expression.faultsAt_infer arg).mono harg).bind fun checked hchecked => ?_
    have hplace := (Expression.isOf_position_of_infer hchecked).mono harg
    refine (Context.faultsAt_requireAssignable hplace).bind fun _ _ => ?_
    exact ((Expression.faultsAt_inferArguments params args).mono
      (List.subset_append_right _ _)).bind fun _ _ => .ok _

end

/-! ## Sentences -/

theorem Expression.faultsAt_inferCondition (e : Expression α) :
    FaultsAt e.tokens (e.inferCondition c) := by
  refine (Expression.faultsAt_infer e).bind fun checked hchecked => ?_
  exact (Context.faultsAt_require (Expression.isOf_position_of_infer hchecked)).bind fun _ _ => .ok _

theorem Sentence.faultsAt_inferAssignment (target : Chain α) (token : Token)
    (value : Expression α) : FaultsAt (target.tokens ++ token :: value.tokens)
      (Sentence.inferAssignment c target token value) := by
  have hlast : target.last.token ∈ target.tokens := target.last_token_mem_tokens
  unfold Sentence.inferAssignment
  dsimp only
  split
  · refine ((Chain.faultsAt_infer target).mono (List.subset_append_left _ _)).bind fun _ _ => ?_
    refine ((Expression.faultsAt_infer value).mono ?_).bind fun _ _ => ?_
    · exact List.subset_append_of_subset_right _ (List.subset_cons_self _ _)
    · have htoken : token.position.IsOf (target.tokens ++ token :: value.tokens) :=
        Token.isOf (List.mem_append_right _ List.mem_cons_self)
      exact (Context.faultsAt_requireAssignable htoken).bind fun _ _ => .ok _
  · exact .error (Token.isOf (List.mem_append_left _ hlast))

theorem Sentence.faultsAt_inferReturn (token : Token) (value : Option (Expression α)) :
    FaultsAt (token :: Expression.allTokens value.toList)
      (Sentence.inferReturn c token value) := by
  have htoken : token.position.IsOf (token :: Expression.allTokens value.toList) :=
    Token.isOf List.mem_cons_self
  rw [Sentence.inferReturn.eq_def]
  cases value with
  | none =>
    split
    · exact .ok _
    · contradiction
    · exact .error htoken
    · contradiction
  | some value =>
    have hvalue : value.tokens ⊆ token :: Expression.allTokens (some value).toList :=
      List.subset_cons_of_subset _ (List.subset_append_left _ _)
    cases c.method.returnType with
    | void => exact .error htoken
    | _ =>
      refine ((Expression.faultsAt_infer value).mono hvalue).bind fun checked hchecked => ?_
      have hplace := (Expression.isOf_position_of_infer hchecked).mono hvalue
      exact (Context.faultsAt_requireAssignable hplace).bind fun _ _ => .ok _

mutual

theorem Sentence.faultsAt_infer : ∀ s : Sentence α, FaultsAt s.tokens (s.infer c)
  | .block sentences => by
    rw [Sentence.infer, Sentence.tokens]
    exact (Sentence.faultsAt_inferAll sentences).bind fun _ _ => .ok _
  | .conditional token condition thenBranch none => by
    rw [Sentence.infer, Sentence.tokens]
    refine ((Expression.faultsAt_inferCondition condition).mono ?_).bind fun _ _ => ?_
    · exact List.subset_cons_of_subset _ (List.subset_append_left _ _)
    refine ((Sentence.faultsAt_infer thenBranch).mono ?_).bind fun _ _ => .ok _
    exact List.subset_cons_of_subset _
      (List.subset_append_of_subset_right _ (List.subset_append_left _ _))
  | .conditional token condition thenBranch (some otherwise) => by
    rw [Sentence.infer, Sentence.tokens]
    refine ((Expression.faultsAt_inferCondition condition).mono ?_).bind fun _ _ => ?_
    · exact List.subset_cons_of_subset _ (List.subset_append_left _ _)
    refine ((Sentence.faultsAt_infer thenBranch).mono ?_).bind fun _ _ => ?_
    · exact List.subset_cons_of_subset _
        (List.subset_append_of_subset_right _ (List.subset_append_left _ _))
    refine ((Sentence.faultsAt_infer otherwise).mono ?_).bind fun _ _ => .ok _
    exact List.subset_cons_of_subset _
      (List.subset_append_of_subset_right _ (List.subset_append_right _ _))
  | .loop token condition body => by
    rw [Sentence.infer, Sentence.tokens]
    refine ((Expression.faultsAt_inferCondition condition).mono ?_).bind fun _ _ => ?_
    · exact List.subset_cons_of_subset _ (List.subset_append_left _ _)
    refine ((Sentence.faultsAt_infer body).mono ?_).bind fun _ _ => .ok _
    exact List.subset_cons_of_subset _ (List.subset_append_right _ _)
  | .assignment target token value => by
    rw [Sentence.infer, Sentence.tokens]
    exact Sentence.faultsAt_inferAssignment target token value
  | .giveBack token value => by
    rw [Sentence.infer, Sentence.tokens]
    exact Sentence.faultsAt_inferReturn token value
  | .expression e => by
    rw [Sentence.infer, Sentence.tokens]
    exact (Expression.faultsAt_infer e).bind fun _ _ => .ok _

theorem Sentence.faultsAt_inferAll : ∀ ss : List (Sentence α),
    FaultsAt (Sentence.allTokens ss) (Sentence.inferAll c ss)
  | [] => .ok []
  | s :: rest => by
    rw [Sentence.inferAll, Sentence.allTokens]
    refine ((Sentence.faultsAt_infer s).mono (List.subset_append_left _ _)).bind fun _ _ => ?_
    exact ((Sentence.faultsAt_inferAll rest).mono (List.subset_append_right _ _)).bind
      fun _ _ => .ok _

end

/-- A body is refused at the token of its method or at one of its own. -/
theorem Body.faultsAt_infer (t : SymbolTable) (b : Body Unit) :
    FaultsAt (b.token :: b.block.tokens) (b.infer t) := by
  unfold Body.infer
  split
  · exact .error (Token.isOf List.mem_cons_self)
  · exact ((Sentence.faultsAt_inferAll b.block).mono (List.subset_cons_self _ _)).bind
      fun _ _ => .ok _

/-! ## Programs -/

theorem Item.tokens_of_mem_bodies {item : Item} {b : Body Unit} (hb : b ∈ item.bodies) :
    b.token :: b.block.tokens ⊆ item.tokens := by
  cases item with
  | struct d => cases hb
  | impl d =>
    obtain ⟨m, hm, rfl⟩ := List.mem_map.1 hb
    have hmethod : m.tokens ⊆ d.tokens := fun token htoken =>
      List.mem_cons_of_mem _ (List.mem_flatMap.2 ⟨m, hm, htoken⟩)
    refine List.Subset.trans ?_ hmethod
    exact List.cons_subset_cons _ (List.subset_append_right _ _)
  | start d =>
    cases List.mem_singleton.1 hb
    exact List.cons_subset_cons _ (List.subset_append_right _ _)

/-- The bodies of a program are refused at tokens of the program. -/
theorem Program.faultsAt_bodies (p : Program) (t : SymbolTable) :
    FaultsAt p.tokens (p.bodies.mapM (Body.infer t)) := by
  refine FaultsAt.mapM fun b hb => (Body.faultsAt_infer t b).mono ?_
  obtain ⟨item, hitem, hb⟩ := List.mem_flatMap.1 hb
  intro token htoken
  exact List.mem_flatMap.2 ⟨item, hitem, Item.tokens_of_mem_bodies hb htoken⟩

end StructLang
