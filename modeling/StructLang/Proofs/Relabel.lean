import StructLang.Typing.Check

/-!
# Trees with other results

What `map` leaves of a tree: the tokens, the form of a chain and its last link.  Changing the results
twice is changing them once (`map_map`).
-/

namespace StructLang

variable {α β γ : Type}

/-! ## What does not change -/

/-- Whether an action looks up a variable or an attribute. -/
def Action.isAccess : Action α → Bool
  | .simple | .index _ => true
  | .call _ | .newInstance _ | .newArray _ | .group _ => false

section Map

variable (f : α → β)

theorem Link.mapAll_eq (links : List (Link α)) : Link.mapAll f links = links.map (Link.map f) := by
  induction links with
  | nil => rfl
  | cons link links ih => rw [mapAll, ih, List.map_cons]

theorem Expression.mapAll_eq (es : List (Expression α)) :
    Expression.mapAll f es = es.map (Expression.map f) := by
  induction es with
  | nil => rfl
  | cons e es ih => rw [mapAll, ih, List.map_cons]

@[simp] theorem Expression.length_mapAll (es : List (Expression α)) :
    (Expression.mapAll f es).length = es.length := by
  rw [mapAll_eq, List.length_map]

@[simp] theorem Link.token_map (link : Link α) : (link.map f).token = link.token := by
  obtain ⟨token, action, result⟩ := link
  rfl

@[simp] theorem Link.action_map (link : Link α) : (link.map f).action = link.action.map f := by
  obtain ⟨token, action, result⟩ := link
  rfl

@[simp] theorem Link.result_map (link : Link α) : (link.map f).result = f link.result := by
  obtain ⟨token, action, result⟩ := link
  rfl

@[simp] theorem Action.isAccess_map (action : Action α) :
    (action.map f).isAccess = action.isAccess := by
  cases action <;> rfl

@[simp] theorem Link.isAssignable_map (link : Link α) :
    (link.map f).isAssignable = link.isAssignable := by
  obtain ⟨token, action, result⟩ := link
  cases action <;> rfl

@[simp] theorem Chain.last_map (chain : Chain α) : (chain.map f).last = chain.last.map f := by
  obtain ⟨head, rest⟩ := chain
  rw [map, last, last, Link.mapAll_eq, List.getLast?_map]
  cases rest.getLast? <;> rfl

@[simp] theorem Chain.result_map (chain : Chain α) : (chain.map f).result = f chain.result := by
  rw [result, last_map, Link.result_map, result]

@[simp] theorem Chain.isSimple_map (chain : Chain α) : (chain.map f).isSimple = chain.isSimple := by
  obtain ⟨⟨token, action, result⟩, rest⟩ := chain
  cases action <;> cases rest <;> rfl

@[simp] theorem Expression.result_map (e : Expression α) : (e.map f).result = f e.result := by
  cases e with
  | access chain => exact Chain.result_map f chain
  | unary operator operand result => rfl
  | binary left operator right result => rfl

theorem Expression.position_map (e : Expression α) : (e.map f).position = e.position := by
  cases e with
  | access chain =>
    obtain ⟨⟨token, action, result⟩, rest⟩ := chain
    rfl
  | unary operator operand result => rfl
  | binary left operator right result => rfl

theorem Sentence.map_conditional (token : Token) (condition : Expression α)
    (thenBranch : Sentence α) (elseBranch : Option (Sentence α)) :
    (Sentence.conditional token condition thenBranch elseBranch).map f =
      .conditional token (condition.map f) (thenBranch.map f)
        (elseBranch.map (Sentence.map f)) := by
  cases elseBranch <;> rfl

end Map

/-! ## Changing the results twice -/

section Twice

variable (g : β → γ) (f : α → β)

mutual

theorem Expression.map_map : ∀ e : Expression α, (e.map f).map g = e.map (g ∘ f)
  | .access chain => by
    simp only [Expression.map, Chain.map_map chain]
  | .unary operator operand result => by
    simp only [Expression.map, Chain.map_map operand, Function.comp_apply]
  | .binary left operator right result => by
    simp only [Expression.map, Expression.map_map left, Expression.map_map right,
      Function.comp_apply]

theorem Chain.map_map : ∀ chain : Chain α, (chain.map f).map g = chain.map (g ∘ f)
  | ⟨head, rest⟩ => by
    simp only [Chain.map, Link.map_map head, Link.mapAll_mapAll rest]

theorem Link.mapAll_mapAll : ∀ links : List (Link α),
    Link.mapAll g (Link.mapAll f links) = Link.mapAll (g ∘ f) links
  | [] => rfl
  | link :: rest => by
    simp only [Link.mapAll, Link.map_map link, Link.mapAll_mapAll rest]

theorem Link.map_map : ∀ link : Link α, (link.map f).map g = link.map (g ∘ f)
  | ⟨token, action, result⟩ => by
    simp only [Link.map, Action.map_map action, Function.comp_apply]

theorem Action.map_map : ∀ action : Action α, (action.map f).map g = action.map (g ∘ f)
  | .simple => rfl
  | .call args => by
    simp only [Action.map, Expression.mapAll_mapAll args]
  | .index position => by
    simp only [Action.map, Expression.map_map position]
  | .newInstance args => by
    simp only [Action.map, Expression.mapAll_mapAll args]
  | .newArray dimension => by
    simp only [Action.map, Expression.map_map dimension]
  | .group inner => by
    simp only [Action.map, Expression.map_map inner]

theorem Expression.mapAll_mapAll : ∀ es : List (Expression α),
    Expression.mapAll g (Expression.mapAll f es) = Expression.mapAll (g ∘ f) es
  | [] => rfl
  | e :: rest => by
    simp only [Expression.mapAll, Expression.map_map e, Expression.mapAll_mapAll rest]

end

mutual

theorem Sentence.map_map : ∀ s : Sentence α, (s.map f).map g = s.map (g ∘ f)
  | .block sentences => by
    simp only [Sentence.map, Sentence.mapAll_mapAll sentences]
  | .conditional token condition thenBranch none => by
    simp only [Sentence.map, Expression.map_map, Sentence.map_map thenBranch]
  | .conditional token condition thenBranch (some otherwise) => by
    simp only [Sentence.map, Expression.map_map, Sentence.map_map thenBranch,
      Sentence.map_map otherwise]
  | .loop token condition body => by
    simp only [Sentence.map, Expression.map_map, Sentence.map_map body]
  | .assignment target token value => by
    simp only [Sentence.map, Chain.map_map, Expression.map_map]
  | .giveBack token none => rfl
  | .giveBack token (some value) => by
    simp only [Sentence.map, Option.map_some, Expression.map_map]
  | .expression e => by
    simp only [Sentence.map, Expression.map_map]

theorem Sentence.mapAll_mapAll : ∀ ss : List (Sentence α),
    Sentence.mapAll g (Sentence.mapAll f ss) = Sentence.mapAll (g ∘ f) ss
  | [] => rfl
  | s :: rest => by
    simp only [Sentence.mapAll, Sentence.map_map s, Sentence.mapAll_mapAll rest]

end

end Twice

/-! ## Changing the results to themselves -/

mutual

theorem Expression.map_id : ∀ e : Expression α, e.map id = e
  | .access chain => by
    rw [Expression.map, Chain.map_id chain]
  | .unary operator operand result => by
    rw [Expression.map, Chain.map_id operand, id]
  | .binary left operator right result => by
    rw [Expression.map, Expression.map_id left, Expression.map_id right, id]

theorem Chain.map_id : ∀ chain : Chain α, chain.map id = chain
  | ⟨head, rest⟩ => by
    rw [Chain.map, Link.map_id head, Link.mapAll_id rest]

theorem Link.mapAll_id : ∀ links : List (Link α), Link.mapAll id links = links
  | [] => rfl
  | link :: rest => by
    rw [Link.mapAll, Link.map_id link, Link.mapAll_id rest]

theorem Link.map_id : ∀ link : Link α, link.map id = link
  | ⟨token, action, result⟩ => by
    rw [Link.map, Action.map_id action, id]

theorem Action.map_id : ∀ action : Action α, action.map id = action
  | .simple => rfl
  | .call args => by
    rw [Action.map, Expression.mapAll_id args]
  | .index position => by
    rw [Action.map, Expression.map_id position]
  | .newInstance args => by
    rw [Action.map, Expression.mapAll_id args]
  | .newArray dimension => by
    rw [Action.map, Expression.map_id dimension]
  | .group inner => by
    rw [Action.map, Expression.map_id inner]

theorem Expression.mapAll_id : ∀ es : List (Expression α), Expression.mapAll id es = es
  | [] => rfl
  | e :: rest => by
    rw [Expression.mapAll, Expression.map_id e, Expression.mapAll_id rest]

end

mutual

theorem Sentence.map_id : ∀ s : Sentence α, s.map id = s
  | .block sentences => by
    rw [Sentence.map, Sentence.mapAll_id sentences]
  | .conditional token condition thenBranch none => by
    rw [Sentence.map, Expression.map_id, Sentence.map_id thenBranch]
  | .conditional token condition thenBranch (some otherwise) => by
    simp only [Sentence.map, Expression.map_id, Sentence.map_id thenBranch,
      Sentence.map_id otherwise]
  | .loop token condition body => by
    rw [Sentence.map, Expression.map_id, Sentence.map_id body]
  | .assignment target token value => by
    rw [Sentence.map, Chain.map_id, Expression.map_id]
  | .giveBack token none => rfl
  | .giveBack token (some value) => by
    rw [Sentence.map, Option.map_some, Expression.map_id]
  | .expression e => by
    rw [Sentence.map, Expression.map_id]

theorem Sentence.mapAll_id : ∀ ss : List (Sentence α), Sentence.mapAll id ss = ss
  | [] => rfl
  | s :: rest => by
    rw [Sentence.mapAll, Sentence.map_id s, Sentence.mapAll_id rest]

end

end StructLang
