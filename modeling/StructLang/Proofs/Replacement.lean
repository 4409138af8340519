import StructLang.Proofs.Fragments

/-!
# Replacing expressions

A context is a tree with a hole where an expression may stand.  It is given by the places on the way
to the hole: an expression stands in an action of a link, beside an operator or in a sentence, and a
sentence stands in another one.

* A place leaves no room for how the expression is written.  If every type of one expression is a
  type of another (`StandsIn`), the same holds after both are put into the same place
  (`ExpressionPlace.standsIn_fill`, `SentencePlace.hasTypes_fill`).
* By induction on the places this holds of contexts of any depth.
* The contexts miss no position: whatever expression a sentence contains fills a context that gives
  the sentence back (`SentenceContext.exists_fill_eq`).
-/

namespace StructLang

variable {α : Type}

/-! ## Contexts -/

/-- A place for an expression in what a link does. -/
inductive ActionPlace (α : Type) where
  | argument (before after : List (Expression α))
  | index
  | creationArgument (before after : List (Expression α))
  | dimension
  | group

/-- A place for an expression in a chain, in what one of the links does. -/
structure ChainPlace (α : Type) where
  before : List (Link α)
  token : Token
  action : ActionPlace α
  result : α
  after : List (Link α)

/-- A place for an expression in an expression. -/
inductive ExpressionPlace (α : Type) where
  | access (place : ChainPlace α)
  | unary (operator : Token) (place : ChainPlace α) (result : α)
  | leftOperand (operator : Token) (right : Expression α) (result : α)
  | rightOperand (left : Expression α) (operator : Token) (result : α)

/-- A place for an expression in a sentence. -/
inductive SentencePlace (α : Type) where
  | condition (token : Token) (thenBranch : Sentence α) (elseBranch : Option (Sentence α))
  | loopCondition (token : Token) (body : Sentence α)
  | inTarget (place : ChainPlace α) (token : Token) (value : Expression α)
  | assigned (target : Chain α) (token : Token)
  | returned (token : Token)
  | statement

/-- A place for a sentence in a sentence. -/
inductive SentenceFrame (α : Type) where
  | inBlock (before after : List (Sentence α))
  | inThen (token : Token) (condition : Expression α) (elseBranch : Option (Sentence α))
  | inElse (token : Token) (condition : Expression α) (thenBranch : Sentence α)
  | inLoop (token : Token) (condition : Expression α)

/-- The action with an expression at the place. -/
def ActionPlace.fill (e : Expression α) : ActionPlace α → Action α
  | argument before after => .call (before ++ e :: after)
  | index => .index e
  | creationArgument before after => .newInstance (before ++ e :: after)
  | dimension => .newArray e
  | group => .group e

namespace ChainPlace

/-- The link of the place, with an expression there. -/
def link (p : ChainPlace α) (e : Expression α) : Link α := ⟨p.token, p.action.fill e, p.result⟩

/-- The chain with an expression at the place. -/
def fill (p : ChainPlace α) (e : Expression α) : Chain α :=
  match p.before with
  | [] => ⟨p.link e, p.after⟩
  | head :: rest => ⟨head, rest ++ p.link e :: p.after⟩

end ChainPlace

/-- The expression with an expression at the place. -/
def ExpressionPlace.fill (e : Expression α) : ExpressionPlace α → Expression α
  | .access place => .access (place.fill e)
  | .unary operator place result => .unary operator (place.fill e) result
  | .leftOperand operator right result => .binary e operator right result
  | .rightOperand left operator result => .binary left operator e result

/-- The sentence with an expression at the place. -/
def SentencePlace.fill (e : Expression α) : SentencePlace α → Sentence α
  | .condition token thenBranch elseBranch => .conditional token e thenBranch elseBranch
  | .loopCondition token body => .loop token e body
  | .inTarget place token value => .assignment (place.fill e) token value
  | .assigned target token => .assignment target token e
  | .returned token => .giveBack token (some e)
  | .statement => .expression e

/-- The sentence with a sentence at the place. -/
def SentenceFrame.fill (s : Sentence α) : SentenceFrame α → Sentence α
  | .inBlock before after => .block (before ++ s :: after)
  | .inThen token condition elseBranch => .conditional token condition s elseBranch
  | .inElse token condition thenBranch => .conditional token condition thenBranch (some s)
  | .inLoop token condition => .loop token condition s

/-- An expression with a hole for an expression: the places on the way to the hole, from the outside
in. -/
structure ExpressionContext (α : Type) where
  places : List (ExpressionPlace α)

/-- A sentence with a hole for an expression: the sentences on the way to the hole, the place in the
innermost one, and the places in the expression there. -/
structure SentenceContext (α : Type) where
  frames : List (SentenceFrame α)
  place : SentencePlace α
  inner : ExpressionContext α

/-- The expression with the hole filled. -/
def ExpressionContext.fill (E : ExpressionContext α) (e : Expression α) : Expression α :=
  E.places.foldr (fun place e => place.fill e) e

/-- The sentence with the hole filled. -/
def SentenceContext.fill (S : SentenceContext α) (e : Expression α) : Sentence α :=
  S.frames.foldr (fun frame s => frame.fill s) (S.place.fill (S.inner.fill e))

/-! ## Every position has a context -/

section Positions

variable {e : Expression α} {x y : Fragment α}

/-- The fragment has an expression at one of its places, at any depth. -/
def Fragment.HasPlace (e : Expression α) : Fragment α → Prop
  | sentence s => ∃ S : SentenceContext α, S.fill e = s
  | expression e' => ∃ E : ExpressionContext α, E.fill e = e'
  | chain c => ∃ (p : ChainPlace α) (E : ExpressionContext α), p.fill (E.fill e) = c
  | link _ l => ∃ (p : ActionPlace α) (E : ExpressionContext α), p.fill (E.fill e) = l.action

theorem Link.exists_of_mem_places {before : Option (Link α)} {links : List (Link α)}
    (h : x ∈ Link.places before links) :
    ∃ b link front back, x = .link b link ∧ links = front ++ link :: back := by
  induction links generalizing before with
  | nil => cases h
  | cons link rest ih =>
    rcases List.mem_cons.1 h with rfl | hrest
    · exact ⟨before, link, [], rest, rfl, rfl⟩
    · obtain ⟨b, link', front, back, hx, rfl⟩ := ih hrest
      exact ⟨b, link', link :: front, back, hx, rfl⟩

theorem Action.hasPlace_of_mem_parts {before : Option (Link α)} {link : Link α}
    (hy : y ∈ link.action.parts) (h : y.HasPlace e) : (Fragment.link before link).HasPlace e := by
  obtain ⟨token, action, result⟩ := link
  cases action with
  | simple => cases hy
  | call args =>
    obtain ⟨arg, harg, rfl⟩ := List.mem_map.1 hy
    obtain ⟨E, rfl⟩ := h
    obtain ⟨front, back, rfl⟩ := List.append_of_mem harg
    exact ⟨.argument front back, E, rfl⟩
  | newInstance args =>
    obtain ⟨arg, harg, rfl⟩ := List.mem_map.1 hy
    obtain ⟨E, rfl⟩ := h
    obtain ⟨front, back, rfl⟩ := List.append_of_mem harg
    exact ⟨.creationArgument front back, E, rfl⟩
  | index position =>
    cases List.mem_singleton.1 hy
    obtain ⟨E, rfl⟩ := h
    exact ⟨.index, E, rfl⟩
  | newArray dimension =>
    cases List.mem_singleton.1 hy
    obtain ⟨E, rfl⟩ := h
    exact ⟨.dimension, E, rfl⟩
  | group inner =>
    cases List.mem_singleton.1 hy
    obtain ⟨E, rfl⟩ := h
    exact ⟨.group, E, rfl⟩

theorem Chain.hasPlace_of_mem_parts {chain : Chain α} (hy : y ∈ (Fragment.chain chain).parts)
    (h : y.HasPlace e) : (Fragment.chain chain).HasPlace e := by
  obtain ⟨head, rest⟩ := chain
  obtain ⟨b, link, front, back, rfl, hlinks⟩ := Link.exists_of_mem_places hy
  obtain ⟨token, action, result⟩ := link
  obtain ⟨p, E, rfl⟩ := h
  refine ⟨⟨front, token, p, result, back⟩, E, ?_⟩
  cases front with
  | nil =>
    cases hlinks
    rfl
  | cons first front =>
    cases hlinks
    rfl

theorem Expression.hasPlace_of_mem_parts {outer : Expression α} (hy : y ∈ outer.parts)
    (h : y.HasPlace e) : (Fragment.expression outer).HasPlace e := by
  cases outer with
  | access chain =>
    cases List.mem_singleton.1 hy
    obtain ⟨p, E, rfl⟩ := h
    exact ⟨⟨.access p :: E.places⟩, rfl⟩
  | unary operator operand result =>
    cases List.mem_singleton.1 hy
    obtain ⟨p, E, rfl⟩ := h
    exact ⟨⟨.unary operator p result :: E.places⟩, rfl⟩
  | binary left operator right result =>
    rcases List.mem_cons.1 hy with rfl | hy
    · obtain ⟨E, rfl⟩ := h
      exact ⟨⟨.leftOperand operator right result :: E.places⟩, rfl⟩
    · cases List.mem_singleton.1 hy
      obtain ⟨E, rfl⟩ := h
      exact ⟨⟨.rightOperand left operator result :: E.places⟩, rfl⟩

theorem Sentence.hasPlace_of_mem_parts {s : Sentence α} (hy : y ∈ s.parts) (h : y.HasPlace e) :
    (Fragment.sentence s).HasPlace e := by
  cases s with
  | block sentences =>
    obtain ⟨s, hs, rfl⟩ := List.mem_map.1 hy
    obtain ⟨S, rfl⟩ := h
    obtain ⟨front, back, rfl⟩ := List.append_of_mem hs
    exact ⟨{ S with frames := .inBlock front back :: S.frames }, rfl⟩
  | conditional token condition thenBranch elseBranch =>
    rcases List.mem_cons.1 hy with rfl | hy
    · obtain ⟨E, rfl⟩ := h
      exact ⟨⟨[], .condition token thenBranch elseBranch, E⟩, rfl⟩
    · rcases List.mem_cons.1 hy with rfl | hy
      · obtain ⟨S, rfl⟩ := h
        exact ⟨{ S with frames := .inThen token condition elseBranch :: S.frames }, rfl⟩
      · obtain ⟨s, hs, rfl⟩ := List.mem_map.1 hy
        cases Option.mem_toList.1 hs
        obtain ⟨S, rfl⟩ := h
        exact ⟨{ S with frames := .inElse token condition thenBranch :: S.frames }, rfl⟩
  | loop token condition body =>
    rcases List.mem_cons.1 hy with rfl | hy
    · obtain ⟨E, rfl⟩ := h
      exact ⟨⟨[], .loopCondition token body, E⟩, rfl⟩
    · cases List.mem_singleton.1 hy
      obtain ⟨S, rfl⟩ := h
      exact ⟨{ S with frames := .inLoop token condition :: S.frames }, rfl⟩
  | assignment target token value =>
    rcases List.mem_cons.1 hy with rfl | hy
    · obtain ⟨p, E, rfl⟩ := h
      exact ⟨⟨[], .inTarget p token value, E⟩, rfl⟩
    · cases List.mem_singleton.1 hy
      obtain ⟨E, rfl⟩ := h
      exact ⟨⟨[], .assigned target token, E⟩, rfl⟩
  | giveBack token value =>
    obtain ⟨e', he', rfl⟩ := List.mem_map.1 hy
    cases Option.mem_toList.1 he'
    obtain ⟨E, rfl⟩ := h
    exact ⟨⟨[], .returned token, E⟩, rfl⟩
  | expression e' =>
    cases List.mem_singleton.1 hy
    obtain ⟨E, rfl⟩ := h
    exact ⟨⟨[], .statement, E⟩, rfl⟩

theorem Fragment.HasPlace.of_mem_parts (h : y.HasPlace e) (hy : y ∈ x.parts) : x.HasPlace e := by
  cases x with
  | sentence s => exact Sentence.hasPlace_of_mem_parts hy h
  | expression outer => exact Expression.hasPlace_of_mem_parts hy h
  | chain chain => exact Chain.hasPlace_of_mem_parts hy h
  | link before link => exact Action.hasPlace_of_mem_parts hy h

/-- Whatever expression a sentence contains fills the hole of a context, which is then the
sentence. -/
theorem SentenceContext.exists_fill_eq {s : Sentence α}
    (h : (Fragment.sentence s).Reaches (.expression e)) :
    ∃ S : SentenceContext α, S.fill e = s := by
  refine Relation.ReflTransGen.head_induction_on (motive := fun x _ => x.HasPlace e) h ?_ ?_
  · exact ⟨⟨[]⟩, rfl⟩
  · intro x y hy _ hplace
    exact hplace.of_mem_parts hy

end Positions

/-! ## What is inferred -/

section Findings

variable {c : Context} {receiver : Option Receiver} {result : Receiver} {ty : Ty}

/-- An expression has a type. -/
def Expression.HasType (c : Context) (e : Expression α) (ty : Ty) : Prop :=
  ∃ e', e.infer c = .ok e' ∧ e'.result = ty

/-- A chain has a type. -/
def Chain.HasType (c : Context) (chain : Chain α) (ty : Ty) : Prop :=
  ∃ chain', chain.infer c = .ok chain' ∧ chain'.result = ty

/-- A link hands on a result. -/
def Link.HandsOn (c : Context) (receiver : Option Receiver) (link : Link α) (result : Receiver) :
    Prop :=
  ∃ link', link.infer c receiver = .ok (link', result)

/-- The last of the links after a receiver has a value of a type. -/
def Link.LeadTo (c : Context) : Receiver → List (Link α) → Ty → Prop
  | receiver, [], ty => receiver = .value ty
  | receiver, link :: rest, ty =>
    ∃ result, link.HandsOn c (some receiver) result ∧ Link.LeadTo c result rest ty

/-- A sentence has types. -/
def Sentence.HasTypes (c : Context) (s : Sentence α) : Prop := ∃ s', s.infer c = .ok s'

theorem Expression.HasType.unique {e : Expression α} {ty' : Ty} (h : e.HasType c ty)
    (h' : e.HasType c ty') : ty = ty' := by
  obtain ⟨e₁, he, rfl⟩ := h
  obtain ⟨e₂, he', rfl⟩ := h'
  cases he.symm.trans he'
  rfl

theorem Expression.hasType_access {chain : Chain α} :
    (Expression.access chain).HasType c ty ↔ chain.HasType c ty := by
  constructor
  · rintro ⟨e', he, rfl⟩
    obtain ⟨chain', hchain, rfl⟩ := Expression.infer_access_eq_ok.1 he
    exact ⟨chain', hchain, rfl⟩
  · rintro ⟨chain', hchain, rfl⟩
    exact ⟨_, Expression.infer_access_eq_ok.2 ⟨chain', hchain, rfl⟩, rfl⟩

theorem Expression.hasType_binary {left right : Expression α} {operator : Token} {r : α} :
    (Expression.binary left operator right r).HasType c ty ↔
      ∃ op leftTy rightTy, BinaryOperator.ofKind? operator.kind = some op ∧
        left.HasType c leftTy ∧ right.HasType c rightTy ∧ c.BinaryGives op leftTy rightTy ty := by
  constructor
  · rintro ⟨e', he, rfl⟩
    obtain ⟨op, left', right', _, hop, hleft, hright, hgives, rfl⟩ :=
      Expression.infer_binary_eq_ok.1 he
    exact ⟨op, _, _, hop, ⟨left', hleft, rfl⟩, ⟨right', hright, rfl⟩, hgives⟩
  · rintro ⟨op, _, _, hop, ⟨left', hleft, rfl⟩, ⟨right', hright, rfl⟩, hgives⟩
    exact ⟨_, Expression.infer_binary_eq_ok.2
      ⟨op, left', right', ty, hop, hleft, hright, hgives, rfl⟩, rfl⟩

theorem Link.leadTo_iff {before : Receiver} {links : List (Link α)} (token : Token) :
    Link.LeadTo c before links ty ↔
      ∃ links', Link.inferRest c token before links = .ok links' ∧
        Link.lastType before links' = ty := by
  induction links generalizing before token with
  | nil =>
    constructor
    · rintro rfl
      exact ⟨[], rfl, rfl⟩
    · rintro ⟨links', hlinks, rfl⟩
      obtain ⟨ty, rfl, rfl⟩ := Link.inferRest_nil_eq_ok.1 hlinks
      rfl
  | cons link rest ih =>
    constructor
    · rintro ⟨result, ⟨link', hlink⟩, hrest⟩
      obtain ⟨rest', hrest, hty⟩ := (ih link'.token).1 hrest
      exact ⟨link' :: rest', Link.inferRest_cons_eq_ok.2 ⟨link', result, rest', hlink, hrest, rfl⟩,
        (Link.lastType_cons (Link.result_of_infer hlink)).trans hty⟩
    · rintro ⟨links', hlinks, hty⟩
      obtain ⟨link', result, rest', hlink, hrest, rfl⟩ := Link.inferRest_cons_eq_ok.1 hlinks
      rw [Link.lastType_cons (Link.result_of_infer hlink)] at hty
      exact ⟨result, ⟨link', hlink⟩, (ih link'.token).2 ⟨rest', hrest, hty⟩⟩

/-- A chain has the type to which its head leads. -/
theorem Chain.hasType_mk {head : Link α} {rest : List (Link α)} :
    (Chain.mk head rest).HasType c ty ↔
      ∃ result, head.HandsOn c none result ∧ Link.LeadTo c result rest ty := by
  constructor
  · rintro ⟨chain', hchain, rfl⟩
    obtain ⟨head', result, rest', hhead, hrest, rfl⟩ := Chain.infer_mk_eq_ok.1 hchain
    rw [Chain.result_eq_lastType (Link.result_of_infer hhead)]
    exact ⟨result, ⟨head', hhead⟩, (Link.leadTo_iff head'.token).2 ⟨rest', hrest, rfl⟩⟩
  · rintro ⟨result, ⟨head', hhead⟩, hrest⟩
    obtain ⟨rest', hrest', rfl⟩ := (Link.leadTo_iff head'.token).1 hrest
    exact ⟨_, Chain.infer_mk_eq_ok.2 ⟨head', result, rest', hhead, hrest', rfl⟩,
      Chain.result_eq_lastType (Link.result_of_infer hhead)⟩

/-- Sentences have types one by one. -/
theorem Sentence.exists_inferAll_iff {sentences : List (Sentence α)} :
    (∃ sentences', Sentence.inferAll c sentences = .ok sentences') ↔
      ∀ s ∈ sentences, s.HasTypes c := by
  induction sentences with
  | nil => exact ⟨fun _ => nofun, fun _ => ⟨[], rfl⟩⟩
  | cons s rest ih =>
    rw [List.forall_mem_cons, ← ih]
    constructor
    · rintro ⟨sentences', h⟩
      obtain ⟨s', rest', hs, hrest, rfl⟩ := Sentence.inferAll_cons_eq_ok.1 h
      exact ⟨⟨s', hs⟩, rest', hrest⟩
    · rintro ⟨⟨s', hs⟩, rest', hrest⟩
      exact ⟨_, Sentence.inferAll_cons_eq_ok.2 ⟨s', rest', hs, hrest, rfl⟩⟩

theorem Sentence.hasTypes_block {sentences : List (Sentence α)} :
    (Sentence.block sentences).HasTypes c ↔ ∀ s ∈ sentences, s.HasTypes c := by
  rw [← Sentence.exists_inferAll_iff]
  constructor
  · rintro ⟨s', h⟩
    obtain ⟨sentences', hsentences, rfl⟩ := Sentence.infer_block_eq_ok.1 h
    exact ⟨sentences', hsentences⟩
  · rintro ⟨sentences', hsentences⟩
    exact ⟨_, Sentence.infer_block_eq_ok.2 ⟨sentences', hsentences, rfl⟩⟩

theorem Sentence.hasTypes_conditional {token : Token} {condition : Expression α}
    {thenBranch : Sentence α} {elseBranch : Option (Sentence α)} :
    (Sentence.conditional token condition thenBranch elseBranch).HasTypes c ↔
      (∃ ty, condition.HasType c ty ∧ ty.isBool = true) ∧ thenBranch.HasTypes c ∧
        ∀ s ∈ elseBranch, s.HasTypes c := by
  constructor
  · rintro ⟨s', h⟩
    obtain ⟨condition', thenBranch', hcondition, hbool, hthen, helse⟩ :=
      Sentence.infer_conditional_eq_ok.1 h
    refine ⟨⟨_, ⟨condition', hcondition, rfl⟩, hbool⟩, ⟨thenBranch', hthen⟩, ?_⟩
    obtain ⟨rfl, _⟩ | ⟨otherwise, otherwise', rfl, hotherwise, _⟩ := helse
    · exact nofun
    · rintro _ ⟨⟩
      exact ⟨otherwise', hotherwise⟩
  · rintro ⟨⟨_, ⟨condition', hcondition, rfl⟩, hbool⟩, ⟨thenBranch', hthen⟩, helse⟩
    cases elseBranch with
    | none =>
      exact ⟨_, Sentence.infer_conditional_eq_ok.2
        ⟨condition', thenBranch', hcondition, hbool, hthen, .inl ⟨rfl, rfl⟩⟩⟩
    | some otherwise =>
      obtain ⟨otherwise', hotherwise⟩ := helse otherwise rfl
      exact ⟨_, Sentence.infer_conditional_eq_ok.2
        ⟨condition', thenBranch', hcondition, hbool, hthen,
          .inr ⟨otherwise, otherwise', rfl, hotherwise, rfl⟩⟩⟩

theorem Sentence.hasTypes_loop {token : Token} {condition : Expression α} {body : Sentence α} :
    (Sentence.loop token condition body).HasTypes c ↔
      (∃ ty, condition.HasType c ty ∧ ty.isBool = true) ∧ body.HasTypes c := by
  constructor
  · rintro ⟨s', h⟩
    obtain ⟨condition', body', hcondition, hbool, hbody, rfl⟩ := Sentence.infer_loop_eq_ok.1 h
    exact ⟨⟨_, ⟨condition', hcondition, rfl⟩, hbool⟩, body', hbody⟩
  · rintro ⟨⟨_, ⟨condition', hcondition, rfl⟩, hbool⟩, body', hbody⟩
    exact ⟨_, Sentence.infer_loop_eq_ok.2 ⟨condition', body', hcondition, hbool, hbody, rfl⟩⟩

theorem Sentence.hasTypes_assignment {target : Chain α} {token : Token} {value : Expression α} :
    (Sentence.assignment target token value).HasTypes c ↔
      target.last.isAssignable = true ∧ ∃ targetTy valueTy, target.HasType c targetTy ∧
        value.HasType c valueTy ∧ c.table.Assignable valueTy targetTy := by
  constructor
  · rintro ⟨s', h⟩
    obtain ⟨target', value', hlast, htarget, hvalue, hassignable, rfl⟩ :=
      Sentence.infer_assignment_eq_ok.1 h
    exact ⟨hlast, _, _, ⟨target', htarget, rfl⟩, ⟨value', hvalue, rfl⟩, hassignable⟩
  · rintro ⟨hlast, _, _, ⟨target', htarget, rfl⟩, ⟨value', hvalue, rfl⟩, hassignable⟩
    exact ⟨_, Sentence.infer_assignment_eq_ok.2
      ⟨target', value', hlast, htarget, hvalue, hassignable, rfl⟩⟩

end Findings

/-! ## Places -/

/-- Every type of one expression is a type of the other. -/
def Expression.StandsIn (c : Context) (e₁ e₂ : Expression α) : Prop :=
  ∀ ty, e₁.HasType c ty → e₂.HasType c ty

section Places

variable {c : Context} {e₁ e₂ : Expression α}

theorem Expression.StandsIn.of_hasType {ty : Ty} (h₁ : e₁.HasType c ty) (h₂ : e₂.HasType c ty) :
    e₁.StandsIn c e₂ := by
  intro ty' h
  rw [h.unique h₁]
  exact h₂

/-- One of several arguments is replaced. -/
theorem Expression.StandsIn.inferArguments (h : e₁.StandsIn c e₂) {params : List Binding}
    {before after : List (Expression α)} {args' : List (Expression Ty)}
    (hargs : Expression.inferArguments c params (before ++ e₁ :: after) = .ok args') :
    ∃ args', Expression.inferArguments c params (before ++ e₂ :: after) = .ok args' := by
  induction before generalizing params args' with
  | nil =>
    cases params with
    | nil => exact ⟨[], rfl⟩
    | cons param params =>
      obtain ⟨arg', rest', harg, hassignable, hrest, rfl⟩ :=
        Expression.inferArguments_cons_eq_ok.1 hargs
      obtain ⟨arg₂, harg₂, hty⟩ := h _ ⟨arg', harg, rfl⟩
      rw [← hty] at hassignable
      exact ⟨_, Expression.inferArguments_cons_eq_ok.2
        ⟨arg₂, rest', harg₂, hassignable, hrest, rfl⟩⟩
  | cons arg before ih =>
    cases params with
    | nil => exact ⟨[], rfl⟩
    | cons param params =>
      obtain ⟨arg', rest', harg, hassignable, hrest, rfl⟩ :=
        Expression.inferArguments_cons_eq_ok.1 hargs
      obtain ⟨rest₂, hrest₂⟩ := ih hrest
      exact ⟨_, Expression.inferArguments_cons_eq_ok.2
        ⟨arg', rest₂, harg, hassignable, hrest₂, rfl⟩⟩

/-- A link hands on the same with another expression in it. -/
theorem ChainPlace.handsOn_link (p : ChainPlace α) (h : e₁.StandsIn c e₂)
    {receiver : Option Receiver} {result : Receiver}
    (hlink : (p.link e₁).HandsOn c receiver result) : (p.link e₂).HandsOn c receiver result := by
  obtain ⟨link', hlink⟩ := hlink
  obtain ⟨action', haction, rfl⟩ := Link.infer_mk_eq_ok.1 hlink
  suffices haction₂ :
      ∃ action₂, (p.action.fill e₂).infer c receiver p.token = .ok (action₂, result) by
    obtain ⟨action₂, haction₂⟩ := haction₂
    exact ⟨_, Link.infer_mk_eq_ok.2 ⟨action₂, haction₂, rfl⟩⟩
  cases hplace : p.action with
  | argument before after =>
    rw [hplace] at haction
    obtain ⟨m, args', hm, harity, hargs, rfl, rfl⟩ := Action.infer_call_eq_ok.1 haction
    obtain ⟨args₂, hargs₂⟩ := h.inferArguments hargs
    have harity₂ : m.params.length = (before ++ e₂ :: after).length := harity.trans (by simp)
    exact ⟨_, Action.infer_call_eq_ok.2 ⟨m, args₂, hm, harity₂, hargs₂, rfl, rfl⟩⟩
  | index =>
    rw [hplace] at haction
    obtain ⟨element, position', hbase, hposition, hint, rfl, rfl⟩ :=
      Action.infer_index_eq_ok.1 haction
    obtain ⟨position₂, hposition₂, hty⟩ := h _ ⟨position', hposition, rfl⟩
    rw [← hty] at hint
    exact ⟨_, Action.infer_index_eq_ok.2 ⟨element, position₂, hbase, hposition₂, hint, rfl, rfl⟩⟩
  | creationArgument before after =>
    rw [hplace] at haction
    obtain ⟨params, args', hhead, hparams, harity, hargs, rfl, rfl⟩ :=
      Action.infer_newInstance_eq_ok.1 haction
    obtain ⟨args₂, hargs₂⟩ := h.inferArguments hargs
    have harity₂ : params.length = (before ++ e₂ :: after).length := harity.trans (by simp)
    exact ⟨_, Action.infer_newInstance_eq_ok.2
      ⟨params, args₂, hhead, hparams, harity₂, hargs₂, rfl, rfl⟩⟩
  | dimension =>
    rw [hplace] at haction
    obtain ⟨element, dimension', hhead, helement, hdimension, hint, rfl, rfl⟩ :=
      Action.infer_newArray_eq_ok.1 haction
    obtain ⟨dimension₂, hdimension₂, hty⟩ := h _ ⟨dimension', hdimension, rfl⟩
    rw [← hty] at hint
    exact ⟨_, Action.infer_newArray_eq_ok.2
      ⟨element, dimension₂, hhead, helement, hdimension₂, hint, rfl, rfl⟩⟩
  | group =>
    rw [hplace] at haction
    obtain ⟨inner', hhead, hinner, rfl, rfl⟩ := Action.infer_group_eq_ok.1 haction
    obtain ⟨inner₂, hinner₂, hty⟩ := h _ ⟨inner', hinner, rfl⟩
    exact ⟨_, Action.infer_group_eq_ok.2 ⟨inner₂, hhead, hinner₂, rfl, by rw [hty]⟩⟩

theorem Link.LeadTo.replace {l₁ l₂ : Link α}
    (h : ∀ receiver result, l₁.HandsOn c receiver result → l₂.HandsOn c receiver result)
    {before after : List (Link α)} {receiver : Receiver} {ty : Ty}
    (hlinks : Link.LeadTo c receiver (before ++ l₁ :: after) ty) :
    Link.LeadTo c receiver (before ++ l₂ :: after) ty := by
  induction before generalizing receiver with
  | nil =>
    obtain ⟨result, hlink, hrest⟩ := hlinks
    exact ⟨result, h _ _ hlink, hrest⟩
  | cons link before ih =>
    obtain ⟨result, hlink, hrest⟩ := hlinks
    exact ⟨result, hlink, ih hrest⟩

theorem ChainPlace.hasType_fill (p : ChainPlace α) (h : e₁.StandsIn c e₂) {ty : Ty}
    (hchain : (p.fill e₁).HasType c ty) : (p.fill e₂).HasType c ty := by
  unfold ChainPlace.fill at hchain ⊢
  cases hbefore : p.before with
  | nil =>
    rw [hbefore] at hchain
    obtain ⟨result, hhead, hrest⟩ := Chain.hasType_mk.1 hchain
    exact Chain.hasType_mk.2 ⟨result, p.handsOn_link h hhead, hrest⟩
  | cons head rest =>
    rw [hbefore] at hchain
    obtain ⟨result, hhead, hrest⟩ := Chain.hasType_mk.1 hchain
    exact Chain.hasType_mk.2 ⟨result, hhead, hrest.replace fun _ _ => p.handsOn_link h⟩

/-- A chain with a place for an expression is no operand of a unary operator. -/
theorem ChainPlace.isSimple_fill (p : ChainPlace α) (e : Expression α) :
    (p.fill e).isSimple = false := by
  have haction : (p.action.fill e).isSimple = false := by cases p.action <;> rfl
  unfold ChainPlace.fill
  cases p.before with
  | nil =>
    rw [Chain.isSimple]
    exact Bool.and_eq_false_imp.2 fun hsimple => absurd (haction.symm.trans hsimple) nofun
  | cons head rest => cases rest <;> simp [Chain.isSimple]

theorem ChainPlace.last_fill (p : ChainPlace α) (e : Expression α) :
    (p.fill e).last = p.after.getLast?.getD (p.link e) := by
  unfold ChainPlace.fill
  cases p.before with
  | nil => rfl
  | cons head rest => simp [Chain.last, List.getLast?_cons]

theorem ChainPlace.isAssignable_last (p : ChainPlace α) :
    (p.fill e₁).last.isAssignable = (p.fill e₂).last.isAssignable := by
  rw [p.last_fill, p.last_fill]
  cases p.after.getLast? with
  | some last => rfl
  | none =>
    cases hplace : p.action <;>
      simp [ChainPlace.link, Link.isAssignable, hplace, ActionPlace.fill]

/-- An expression has the same types with another expression at a place in it. -/
theorem ExpressionPlace.standsIn_fill (p : ExpressionPlace α) (h : e₁.StandsIn c e₂) :
    (p.fill e₁).StandsIn c (p.fill e₂) := by
  intro ty hchecks
  cases p with
  | access place =>
    have hchain := Expression.hasType_access.1 hchecks
    exact Expression.hasType_access.2 (place.hasType_fill h hchain)
  | unary operator place result =>
    obtain ⟨e', he, _⟩ := hchecks
    obtain ⟨_, _, _, _, hsimple, _⟩ := Expression.infer_unary_eq_ok.1 he
    rw [place.isSimple_fill] at hsimple
    cases hsimple
  | leftOperand operator right result =>
    obtain ⟨op, leftTy, rightTy, hop, hleft, hright, hgives⟩ := Expression.hasType_binary.1 hchecks
    exact Expression.hasType_binary.2 ⟨op, leftTy, rightTy, hop, h leftTy hleft, hright, hgives⟩
  | rightOperand left operator result =>
    obtain ⟨op, leftTy, rightTy, hop, hleft, hright, hgives⟩ := Expression.hasType_binary.1 hchecks
    exact Expression.hasType_binary.2 ⟨op, leftTy, rightTy, hop, hleft, h rightTy hright, hgives⟩

/-- A sentence still has types with another expression at a place in it. -/
theorem SentencePlace.hasTypes_fill (p : SentencePlace α) (h : e₁.StandsIn c e₂)
    (htypes : (p.fill e₁).HasTypes c) : (p.fill e₂).HasTypes c := by
  cases p with
  | condition token thenBranch elseBranch =>
    obtain ⟨⟨ty, hcondition, hbool⟩, hbranches⟩ := Sentence.hasTypes_conditional.1 htypes
    exact Sentence.hasTypes_conditional.2 ⟨⟨ty, h ty hcondition, hbool⟩, hbranches⟩
  | loopCondition token body =>
    obtain ⟨⟨ty, hcondition, hbool⟩, hbody⟩ := Sentence.hasTypes_loop.1 htypes
    exact Sentence.hasTypes_loop.2 ⟨⟨ty, h ty hcondition, hbool⟩, hbody⟩
  | inTarget place token value =>
    obtain ⟨hlast, targetTy, valueTy, htarget, hrest⟩ := Sentence.hasTypes_assignment.1 htypes
    rw [place.isAssignable_last] at hlast
    exact Sentence.hasTypes_assignment.2
      ⟨hlast, targetTy, valueTy, place.hasType_fill h htarget, hrest⟩
  | assigned target token =>
    obtain ⟨hlast, targetTy, valueTy, htarget, hvalue, hassignable⟩ :=
      Sentence.hasTypes_assignment.1 htypes
    exact Sentence.hasTypes_assignment.2
      ⟨hlast, targetTy, valueTy, htarget, h valueTy hvalue, hassignable⟩
  | returned token =>
    obtain ⟨s', hs⟩ := htypes
    obtain ⟨value', hvoid, hvalue, hassignable, rfl⟩ := Sentence.infer_returnValue_eq_ok.1 hs
    obtain ⟨value₂, hvalue₂, hty⟩ := h _ ⟨value', hvalue, rfl⟩
    rw [← hty] at hassignable
    exact ⟨_, Sentence.infer_returnValue_eq_ok.2 ⟨value₂, hvoid, hvalue₂, hassignable, rfl⟩⟩
  | statement =>
    obtain ⟨s', hs⟩ := htypes
    obtain ⟨e', he, rfl⟩ := Sentence.infer_expression_eq_ok.1 hs
    obtain ⟨e₂', he₂, _⟩ := h _ ⟨e', he, rfl⟩
    exact ⟨_, Sentence.infer_expression_eq_ok.2 ⟨e₂', he₂, rfl⟩⟩

/-- A sentence still has types with another sentence at a place in it that has. -/
theorem SentenceFrame.hasTypes_fill (f : SentenceFrame α) {s₁ s₂ : Sentence α}
    (h : s₁.HasTypes c → s₂.HasTypes c) (htypes : (f.fill s₁).HasTypes c) :
    (f.fill s₂).HasTypes c := by
  cases f with
  | inBlock before after =>
    have hall := Sentence.hasTypes_block.1 htypes
    simp only [List.forall_mem_append, List.forall_mem_cons] at hall
    refine Sentence.hasTypes_block.2 ?_
    simp only [List.forall_mem_append, List.forall_mem_cons]
    exact ⟨hall.1, h hall.2.1, hall.2.2⟩
  | inThen token condition elseBranch =>
    obtain ⟨hcondition, hthen, helse⟩ := Sentence.hasTypes_conditional.1 htypes
    exact Sentence.hasTypes_conditional.2 ⟨hcondition, h hthen, helse⟩
  | inElse token condition thenBranch =>
    obtain ⟨hcondition, hthen, helse⟩ := Sentence.hasTypes_conditional.1 htypes
    refine Sentence.hasTypes_conditional.2 ⟨hcondition, hthen, ?_⟩
    rintro _ ⟨⟩
    exact h (helse s₁ rfl)
  | inLoop token condition =>
    obtain ⟨hcondition, hbody⟩ := Sentence.hasTypes_loop.1 htypes
    exact Sentence.hasTypes_loop.2 ⟨hcondition, h hbody⟩

end Places

/-! ## Contexts of any depth -/

section Contexts

variable {c : Context} {e₁ e₂ : Expression α}

theorem ExpressionContext.standsIn_fill (E : ExpressionContext α) (h : e₁.StandsIn c e₂) :
    (E.fill e₁).StandsIn c (E.fill e₂) := by
  obtain ⟨places⟩ := E
  induction places with
  | nil => exact h
  | cons place places ih => exact place.standsIn_fill ih

theorem SentenceContext.hasTypes_fill (S : SentenceContext α) (h : e₁.StandsIn c e₂)
    (htypes : (S.fill e₁).HasTypes c) : (S.fill e₂).HasTypes c := by
  obtain ⟨frames, place, inner⟩ := S
  induction frames with
  | nil => exact place.hasTypes_fill (inner.standsIn_fill h) htypes
  | cons frame frames ih => exact frame.hasTypes_fill ih htypes

/-! ## What the checker answers -/

/-- The checker accepts an expression and answers with a type. -/
def Expression.ChecksTo (c : Context) (e : Expression (Option Ty)) (ty : Ty) : Prop :=
  (e.check c .empty).answer = .ok ty

/-- The checker accepts a sentence. -/
def Sentence.Accepted (c : Context) (s : Sentence (Option Ty)) : Prop :=
  (s.check c .empty).answer = .ok ()

theorem Expression.checksTo_iff {e : Expression (Option Ty)} {ty : Ty} :
    e.ChecksTo c ty ↔ e.HasType c ty :=
  Expression.answer_check_eq_ok

theorem Sentence.accepted_iff {s : Sentence (Option Ty)} : s.Accepted c ↔ s.HasTypes c :=
  Sentence.answer_check_eq_ok

/-- In every context, an expression may be replaced by another one of its type.  A sentence is
accepted with one exactly if it is accepted with the other, and an expression around them has the
same type.  Wherever the expression stands in a sentence, the rest is such a context. -/
theorem accepted_fill_iff_of_checksTo {ty : Ty} {e₁ e₂ : Expression (Option Ty)}
    (h₁ : e₁.ChecksTo c ty) (h₂ : e₂.ChecksTo c ty) :
    (∀ S : SentenceContext (Option Ty), (S.fill e₁).Accepted c ↔ (S.fill e₂).Accepted c) ∧
      (∀ (E : ExpressionContext (Option Ty)) (outer : Ty),
        (E.fill e₁).ChecksTo c outer ↔ (E.fill e₂).ChecksTo c outer) ∧
      ∀ s : Sentence (Option Ty), (Fragment.sentence s).Reaches (.expression e₁) →
        ∃ S : SentenceContext (Option Ty), S.fill e₁ = s := by
  rw [Expression.checksTo_iff] at h₁ h₂
  simp only [Expression.checksTo_iff, Sentence.accepted_iff]
  have hforth : e₁.StandsIn c e₂ := .of_hasType h₁ h₂
  have hback : e₂.StandsIn c e₁ := .of_hasType h₂ h₁
  exact ⟨fun S => ⟨S.hasTypes_fill hforth, S.hasTypes_fill hback⟩,
    fun E outer => ⟨E.standsIn_fill hforth outer, E.standsIn_fill hback outer⟩,
    fun _ => SentenceContext.exists_fill_eq⟩

/-- A literal in parentheses takes the place of a literal as an argument. -/
theorem accepted_fill_iff_of_outputCall :
    let c : Context := ⟨stateAfter SymbolTable.consolidate .new,
      .declare (.builtin .startWord "start") none .start .void 0⟩
    let literal : Expression (Option Ty) :=
      .access ⟨⟨.builtin .intLiteral "1", .simple, none⟩, []⟩
    let grouped : Expression (Option Ty) :=
      .access ⟨⟨.builtin .leftParen "(", .group literal, none⟩, []⟩
    let S : SentenceContext (Option Ty) := ⟨[.inBlock [] []], .statement,
      ⟨[.access ⟨[⟨.builtin .structId "IO", .simple, none⟩], .builtin .objectId "out_int",
        .argument [] [], none, []⟩]⟩⟩
    S.fill literal = .block outputCall ∧ literal.ChecksTo c (.literal .int) ∧
      grouped.ChecksTo c (.literal .int) ∧ (S.fill literal).Accepted c ∧
      (S.fill grouped).Accepted c := by
  intro c literal grouped S
  have hliteral : literal.ChecksTo c (.literal .int) := rfl
  have hgrouped : grouped.ChecksTo c (.literal .int) := rfl
  have hok : ((S.fill literal).check c .empty).answer.isOk = true := by decide +kernel
  obtain ⟨_, haccepted⟩ := exists_of_isOk hok
  have hiff := (accepted_fill_iff_of_checksTo hliteral hgrouped).1 S
  exact ⟨rfl, hliteral, hgrouped, haccepted, hiff.1 haccepted⟩

end Contexts

end StructLang
