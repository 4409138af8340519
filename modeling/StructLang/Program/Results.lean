import StructLang.Program.Basic

/-!
# Results of a tree

Expressions and sentences carry a result at every node and at every link.  `map` changes the results
and leaves the tree.
-/

namespace StructLang

variable {α β : Type}

mutual

/-- The expression with other results. -/
def Expression.map (f : α → β) : Expression α → Expression β
  | .access chain => .access (chain.map f)
  | .unary operator operand result => .unary operator (operand.map f) (f result)
  | .binary left operator right result => .binary (left.map f) operator (right.map f) (f result)

/-- The chain with other results. -/
def Chain.map (f : α → β) : Chain α → Chain β
  | ⟨head, rest⟩ => ⟨head.map f, Link.mapAll f rest⟩

/-- Links with other results. -/
def Link.mapAll (f : α → β) : List (Link α) → List (Link β)
  | [] => []
  | link :: rest => link.map f :: Link.mapAll f rest

/-- The link with other results. -/
def Link.map (f : α → β) : Link α → Link β
  | ⟨token, action, result⟩ => ⟨token, action.map f, f result⟩

/-- The action with other results. -/
def Action.map (f : α → β) : Action α → Action β
  | .simple => .simple
  | .call args => .call (Expression.mapAll f args)
  | .index position => .index (position.map f)
  | .newInstance args => .newInstance (Expression.mapAll f args)
  | .newArray dimension => .newArray (dimension.map f)
  | .group inner => .group (inner.map f)

/-- Expressions with other results. -/
def Expression.mapAll (f : α → β) : List (Expression α) → List (Expression β)
  | [] => []
  | e :: rest => e.map f :: Expression.mapAll f rest

end

mutual

/-- The sentence with other results. -/
def Sentence.map (f : α → β) : Sentence α → Sentence β
  | .block sentences => .block (Sentence.mapAll f sentences)
  | .conditional token condition thenBranch elseBranch =>
    .conditional token (condition.map f) (thenBranch.map f)
      (match elseBranch with
        | none => none
        | some otherwise => some (otherwise.map f))
  | .loop token condition body => .loop token (condition.map f) (body.map f)
  | .assignment target token value => .assignment (target.map f) token (value.map f)
  | .giveBack token value => .giveBack token (Option.map (Expression.map f) value)
  | .expression e => .expression (e.map f)

/-- Sentences with other results. -/
def Sentence.mapAll (f : α → β) : List (Sentence α) → List (Sentence β)
  | [] => []
  | s :: rest => s.map f :: Sentence.mapAll f rest

end

/-- The body with other results. -/
def Block.map (f : α → β) (b : Block α) : Block β := Sentence.mapAll f b

/-- The body without results. -/
def Block.blank (b : Block α) : Block (Option Ty) := b.map fun _ => none

end StructLang
