import StructLang.Proofs.ItemOrder
import StructLang.Proofs.NodeSnapshot
import StructLang.Proofs.ProgramDocument

/-!
# How deep the nodes of a body nest

A body is shown twice: in the document of its program, and as a node in the snapshot of the checked
bodies.  The two nest differently.  `levels` counts the containers that the node opens one inside the
other, whatever types it carries (`Block.nesting_ofBlock`, `Block.levels_map`), and `steps` the links
after the first link of a chain that lie on one way down.  A link takes one container in the program
and two in the node, and nothing else takes more in the node, apart from one container where the way
ends in a sentence that is an expression.  So the node of a body nests deeper than the body by its
steps and one, at most (`Block.levels_le`).
-/

namespace StructLang

open Json

variable {α β : Type}

/-! ## Levels -/

mutual

/-- How many containers the node of an expression opens one inside the other. -/
def Expression.levels : Expression α → Nat
  | .access chain => chain.levels
  | .unary _ operand _ => operand.levels + 2
  | .binary left _ right _ => max left.levels right.levels + 2

/-- The levels of a chain. -/
def Chain.levels : Chain α → Nat
  | ⟨head, rest⟩ => head.levels (Link.restLevels rest)

/-- The levels of the links after one. -/
def Link.restLevels : List (Link α) → Nat
  | [] => 0
  | link :: rest => link.levels (Link.restLevels rest)

/-- The levels of a link, given those of the rest of the chain. -/
def Link.levels (rest : Nat) : Link α → Nat
  | ⟨_, action, _⟩ => max action.levels rest + 2

/-- The levels of what a link works on. -/
def Action.levels : Action α → Nat
  | .simple => 0
  | .call args => Expression.allLevels args
  | .index position => position.levels
  | .newInstance args => Expression.allLevels args
  | .newArray dimension => dimension.levels
  | .group inner => inner.levels

/-- The most levels of some expressions. -/
def Expression.allLevels : List (Expression α) → Nat
  | [] => 0
  | e :: rest => max e.levels (Expression.allLevels rest)

end

mutual

/-- The levels of a sentence. -/
def Sentence.levels : Sentence α → Nat
  | .block sentences => if sentences.isEmpty then 1 else Sentence.allLevels sentences + 2
  | .conditional _ condition thenBranch elseBranch =>
    max condition.levels (max thenBranch.levels (match elseBranch with
      | none => 0
      | some otherwise => otherwise.levels)) + 2
  | .loop _ condition body => max condition.levels body.levels + 2
  | .assignment target _ value => max target.levels value.levels + 2
  | .giveBack _ value => Expression.allLevels value.toList + 2
  | .expression e => e.levels + 2

/-- The most levels of some sentences. -/
def Sentence.allLevels : List (Sentence α) → Nat
  | [] => 0
  | s :: rest => max s.levels (Sentence.allLevels rest)

end

/-- The levels of a body. -/
def Block.levels (b : Block α) : Nat := (Sentence.block b).levels

/-! ## Levels without types -/

section Map

variable (f : α → β)

mutual

theorem Expression.levels_map : ∀ e : Expression α, (e.map f).levels = e.levels
  | .access chain => Chain.levels_map chain
  | .unary _ operand _ => by
    rw [Expression.map, Expression.levels, Expression.levels, Chain.levels_map operand]
  | .binary left _ right _ => by
    rw [Expression.map, Expression.levels, Expression.levels, Expression.levels_map left,
      Expression.levels_map right]

theorem Chain.levels_map : ∀ chain : Chain α, (chain.map f).levels = chain.levels
  | ⟨head, rest⟩ => by
    rw [Chain.map, Chain.levels, Chain.levels, Link.levels_map _ head, Link.restLevels_mapAll rest]

theorem Link.restLevels_mapAll : ∀ links : List (Link α),
    Link.restLevels (Link.mapAll f links) = Link.restLevels links
  | [] => rfl
  | link :: rest => by
    rw [Link.mapAll, Link.restLevels, Link.restLevels, Link.levels_map _ link,
      Link.restLevels_mapAll rest]

theorem Link.levels_map (n : Nat) : ∀ link : Link α, (link.map f).levels n = link.levels n
  | ⟨_, action, _⟩ => by rw [Link.map, Link.levels, Link.levels, Action.levels_map action]

theorem Action.levels_map : ∀ action : Action α, (action.map f).levels = action.levels
  | .simple => rfl
  | .call args | .newInstance args => Expression.allLevels_mapAll args
  | .index e | .newArray e | .group e => Expression.levels_map e

theorem Expression.allLevels_mapAll : ∀ es : List (Expression α),
    Expression.allLevels (Expression.mapAll f es) = Expression.allLevels es
  | [] => rfl
  | e :: rest => by
    rw [Expression.mapAll, Expression.allLevels, Expression.allLevels, Expression.levels_map e,
      Expression.allLevels_mapAll rest]

end

mutual

theorem Sentence.levels_map : ∀ s : Sentence α, (s.map f).levels = s.levels
  | .block [] => rfl
  | .block (s :: rest) => congrArg (· + 2) (Sentence.allLevels_mapAll (s :: rest))
  | .conditional _ condition thenBranch none => by
    rw [Sentence.map, Sentence.levels, Sentence.levels, Expression.levels_map,
      Sentence.levels_map thenBranch]
  | .conditional _ condition thenBranch (some otherwise) => by
    rw [Sentence.map, Sentence.levels, Sentence.levels, Expression.levels_map,
      Sentence.levels_map thenBranch, Sentence.levels_map otherwise]
  | .loop _ condition body => by
    rw [Sentence.map, Sentence.levels, Sentence.levels, Expression.levels_map,
      Sentence.levels_map body]
  | .assignment target _ value => by
    rw [Sentence.map, Sentence.levels, Sentence.levels, Chain.levels_map, Expression.levels_map]
  | .giveBack _ none => rfl
  | .giveBack _ (some value) => congrArg (· + 2) (Expression.allLevels_mapAll f [value])
  | .expression e => congrArg (· + 2) (Expression.levels_map f e)

theorem Sentence.allLevels_mapAll : ∀ ss : List (Sentence α),
    Sentence.allLevels (Sentence.mapAll f ss) = Sentence.allLevels ss
  | [] => rfl
  | s :: rest => by
    rw [Sentence.mapAll, Sentence.allLevels, Sentence.allLevels, Sentence.levels_map s,
      Sentence.allLevels_mapAll rest]

end

theorem Block.levels_map (b : Block α) : (b.map f).levels = b.levels :=
  Sentence.levels_map f (.block b)

end Map

/-- A checked body nests as deep as the body. -/
theorem Block.levels_of_infer {c : Context} {b : Block α} {b' : Block Ty} (h : b.infer c = .ok b') :
    b'.levels = b.levels := by
  obtain ⟨a, _, hshape, rfl⟩ := Block.exists_typed h
  rw [Block.levels_map, ← Block.levels_map forget a, hshape, Block.levels_map]

/-! ## Nodes -/

namespace NodeSnapshot

theorem nesting_typed (node : String) (token : Token) (result : Option Ty)
    (children : List NodeSnapshot) :
    (typed node token result children).toJson.nesting =
      nestingOfItems (NodeSnapshot.allToJson children) + 2 := by
  have hposition : token.position.toJson.nesting = 1 := rfl
  cases result <;> cases children <;>
    simp [typed, NodeSnapshot.toJson, presentMembers, nestingOfMembers, nesting, hposition,
      NodeSnapshot.allToJson, nestingOfItems]

theorem nesting_plain (node : String) (children : List NodeSnapshot) :
    (plain node children).toJson.nesting = if children.isEmpty then 1
      else nestingOfItems (NodeSnapshot.allToJson children) + 2 := by
  cases children <;>
    simp [plain, NodeSnapshot.toJson, presentMembers, nestingOfMembers, nesting]

theorem anchored_eq (node : String) (token : Token) (children : List NodeSnapshot) :
    anchored node token children = typed node token none children := rfl

theorem nestingOfItems_append (ns ms : List NodeSnapshot) :
    nestingOfItems (NodeSnapshot.allToJson (ns ++ ms)) =
      max (nestingOfItems (NodeSnapshot.allToJson ns)) (nestingOfItems (NodeSnapshot.allToJson ms)) := by
  induction ns with
  | nil => simp [NodeSnapshot.allToJson, nestingOfItems]
  | cons n ns ih =>
    rw [List.cons_append, NodeSnapshot.allToJson, NodeSnapshot.allToJson, nestingOfItems,
      nestingOfItems, ih, Nat.max_assoc]

variable (type : α → Option Ty)

mutual

theorem nesting_ofExpression : ∀ e : Expression α, (ofExpression type e).toJson.nesting = e.levels
  | .access chain => nesting_ofChain chain
  | .unary _ operand _ => by
    rw [ofExpression, nesting_typed, Expression.levels]
    simp [NodeSnapshot.allToJson, nestingOfItems, nesting_ofChain operand]
  | .binary left _ right _ => by
    rw [ofExpression, nesting_typed, Expression.levels]
    simp [NodeSnapshot.allToJson, nestingOfItems, nesting_ofExpression left,
      nesting_ofExpression right]

theorem nesting_ofChain : ∀ chain : Chain α, (ofChain type chain).toJson.nesting = chain.levels
  | ⟨head, rest⟩ => nesting_ofLink (nesting_ofRest rest) head

theorem nesting_ofRest : ∀ links : List (Link α),
    nestingOfItems (NodeSnapshot.allToJson (ofRest type links)) = Link.restLevels links
  | [] => rfl
  | link :: rest => by
    rw [ofRest, Link.restLevels, NodeSnapshot.allToJson, NodeSnapshot.allToJson, nestingOfItems,
      nesting_ofLink (nesting_ofRest rest) link, nestingOfItems, Nat.max_zero]

theorem nesting_ofLink {rest : List NodeSnapshot} {n : Nat}
    (hrest : nestingOfItems (NodeSnapshot.allToJson rest) = n) :
    ∀ link : Link α, (ofLink type rest link).toJson.nesting = link.levels n
  | ⟨_, action, _⟩ => by
    rw [ofLink, nesting_typed, nestingOfItems_append, hrest, nesting_ofAction action, Link.levels]

theorem nesting_ofAction : ∀ action : Action α,
    nestingOfItems (NodeSnapshot.allToJson (ofAction type action)) = action.levels
  | .simple => rfl
  | .call args | .newInstance args => nesting_ofExpressions args
  | .index e | .newArray e | .group e => by
    simp [ofAction, NodeSnapshot.allToJson, nestingOfItems, Action.levels, nesting_ofExpression e]

theorem nesting_ofExpressions : ∀ es : List (Expression α),
    nestingOfItems (NodeSnapshot.allToJson (ofExpressions type es)) = Expression.allLevels es
  | [] => rfl
  | e :: rest => by
    rw [ofExpressions, NodeSnapshot.allToJson, nestingOfItems, nesting_ofExpression e,
      nesting_ofExpressions rest, Expression.allLevels]

end

theorem isEmpty_ofSentences (ss : List (Sentence α)) :
    (ofSentences type ss).isEmpty = ss.isEmpty := by
  cases ss <;> rfl

mutual

theorem nesting_ofSentence : ∀ s : Sentence α, (ofSentence type s).toJson.nesting = s.levels
  | .block sentences => by
    rw [ofSentence, nesting_plain, isEmpty_ofSentences, nesting_ofSentences sentences,
      Sentence.levels]
  | .conditional _ condition thenBranch none => by
    rw [ofSentence, anchored_eq, nesting_typed, Sentence.levels]
    simp [NodeSnapshot.allToJson, nestingOfItems, nesting_ofExpression,
      nesting_ofSentence thenBranch]
  | .conditional _ condition thenBranch (some otherwise) => by
    rw [ofSentence, anchored_eq, nesting_typed, Sentence.levels]
    simp [NodeSnapshot.allToJson, nestingOfItems, nesting_ofExpression,
      nesting_ofSentence thenBranch, nesting_ofSentence otherwise]
  | .loop _ condition body => by
    rw [ofSentence, anchored_eq, nesting_typed, Sentence.levels]
    simp [NodeSnapshot.allToJson, nestingOfItems, nesting_ofExpression, nesting_ofSentence body]
  | .assignment target _ value => by
    rw [ofSentence, anchored_eq, nesting_typed, Sentence.levels]
    simp [NodeSnapshot.allToJson, nestingOfItems, nesting_ofExpression, nesting_ofChain]
  | .giveBack _ value => by
    rw [ofSentence, anchored_eq, nesting_typed, Sentence.levels]
    cases value <;>
      simp [NodeSnapshot.allToJson, nestingOfItems, nesting_ofExpression, Expression.allLevels]
  | .expression e => by
    rw [ofSentence, nesting_plain, Sentence.levels]
    simp [NodeSnapshot.allToJson, nestingOfItems, nesting_ofExpression]

theorem nesting_ofSentences : ∀ ss : List (Sentence α),
    nestingOfItems (NodeSnapshot.allToJson (ofSentences type ss)) = Sentence.allLevels ss
  | [] => rfl
  | s :: rest => by
    rw [ofSentences, NodeSnapshot.allToJson, nestingOfItems, nesting_ofSentence s,
      nesting_ofSentences rest, Sentence.allLevels]

end

/-- The node of a body nests to the levels of the body. -/
theorem nesting_ofBlock (b : Block α) : (ofBlock type b).toJson.nesting = b.levels :=
  nesting_ofSentence type (.block b)

end NodeSnapshot

/-- The snapshot of bodies nests to the levels of the deepest one, within three containers. -/
theorem AstSnapshot.nesting_ofBodies_le {bodies : List (Body (Option Ty))} {n : Nat} :
    (AstSnapshot.ofBodies bodies).toJson.nesting ≤ n + 3 ↔ ∀ b ∈ bodies, b.block.levels ≤ n := by
  have hbody (b : Body (Option Ty)) :
      (BodySnapshot.ofBody b).toJson.nesting = b.block.levels + 1 := by
    have howner : (Json.ofOption Json.str b.owner).nesting = 0 := by
      cases b.owner <;> rfl
    simp [BodySnapshot.toJson, BodySnapshot.ofBody, nesting, nestingOfMembers, howner,
      NodeSnapshot.nesting_ofBlock]
  simp only [AstSnapshot.ofBodies, AstSnapshot.toJson, nesting, nestingOfMembers, Nat.max_zero,
    Nat.add_le_add_iff_right]
  rw [nesting_ofList_le, List.forall_mem_map]
  simp only [hbody, Nat.add_le_add_iff_right]

/-! ## Steps -/

mutual

/-- How many links after the first link of a chain lie on one way down into an expression. -/
def Expression.steps : Expression α → Nat
  | .access chain => chain.steps
  | .unary _ operand _ => operand.steps
  | .binary left _ right _ => max left.steps right.steps

/-- The steps of a chain. -/
def Chain.steps : Chain α → Nat
  | ⟨head, rest⟩ => head.steps (Link.restSteps rest)

/-- The steps of the links after one. -/
def Link.restSteps : List (Link α) → Nat
  | [] => 0
  | link :: rest => link.steps (Link.restSteps rest) + 1

/-- The steps of a link, given those of the rest of the chain. -/
def Link.steps (rest : Nat) : Link α → Nat
  | ⟨_, action, _⟩ => max action.steps rest

/-- The steps of what a link works on. -/
def Action.steps : Action α → Nat
  | .simple => 0
  | .call args => Expression.allSteps args
  | .index position => position.steps
  | .newInstance args => Expression.allSteps args
  | .newArray dimension => dimension.steps
  | .group inner => inner.steps

/-- The most steps of some expressions. -/
def Expression.allSteps : List (Expression α) → Nat
  | [] => 0
  | e :: rest => max e.steps (Expression.allSteps rest)

end

mutual

/-- The steps of a sentence. -/
def Sentence.steps : Sentence α → Nat
  | .block sentences => Sentence.allSteps sentences
  | .conditional _ condition thenBranch elseBranch =>
    max condition.steps (max thenBranch.steps (match elseBranch with
      | none => 0
      | some otherwise => otherwise.steps))
  | .loop _ condition body => max condition.steps body.steps
  | .assignment target _ value => max target.steps value.steps
  | .giveBack _ value => Expression.allSteps value.toList
  | .expression e => e.steps

/-- The most steps of some sentences. -/
def Sentence.allSteps : List (Sentence α) → Nat
  | [] => 0
  | s :: rest => max s.steps (Sentence.allSteps rest)

end

/-- The steps of a body. -/
def Block.steps (b : Block α) : Nat := Sentence.allSteps b

mutual

theorem Expression.levels_le : ∀ e : Expression α, e.levels ≤ e.toJson.nesting + e.steps
  | .access chain => by
    have hchain := Chain.levels_le chain
    simp only [Expression.levels, Expression.toJson, Expression.steps, nesting, nestingOfMembers]
    omega
  | .unary operator operand _ => by
    have hoperand := Chain.levels_le operand
    simp only [Expression.levels, Expression.toJson, Expression.steps, nesting, nestingOfMembers]
    omega
  | .binary left operator right _ => by
    have hleft := Expression.levels_le left
    have hright := Expression.levels_le right
    simp only [Expression.levels, Expression.toJson, Expression.steps, nesting, nestingOfMembers]
    omega

theorem Chain.levels_le : ∀ chain : Chain α,
    chain.levels ≤ chain.toJson.nesting + chain.steps
  | ⟨head, rest⟩ => Link.levels_le (Link.restLevels_lt rest) head

-- The end of a chain opens no container, but no link opens fewer than one besides its own.
theorem Link.restLevels_lt : ∀ links : List (Link α),
    Link.restLevels links < max 1 (Link.restToJson links).nesting + Link.restSteps links
  | [] => Nat.one_pos
  | link :: rest => by
    have hlink := Link.levels_le (Link.restLevels_lt rest) link
    simp only [Link.restLevels, Link.restToJson, Link.restSteps]
    omega

theorem Link.levels_le {n k : Nat} {v : Json} (hrest : n < max 1 v.nesting + k) :
    ∀ link : Link α, link.levels n ≤ (link.toJson v).nesting + link.steps k
  | ⟨_, action, _⟩ => by
    have haction := Action.levels_lt action
    simp only [Link.levels, Link.nesting_toJson, Link.steps]
    omega

theorem Action.levels_lt : ∀ action : Action α,
    action.levels < max 1 action.toJson.nesting + action.steps
  | .simple => Nat.one_pos
  | .call args | .newInstance args => by
    have hargs := Expression.allLevels_le args
    simp only [Action.levels, Action.toJson, Action.steps, nesting, nestingOfMembers]
    omega
  | .index e | .newArray e | .group e => by
    have he := Expression.levels_le e
    simp only [Action.levels, Action.toJson, Action.steps, nesting, nestingOfMembers]
    omega

theorem Expression.allLevels_le : ∀ es : List (Expression α), Expression.allLevels es ≤
    nestingOfItems (Expression.allToJson es) + Expression.allSteps es
  | [] => Nat.le_refl 0
  | e :: rest => by
    have he := Expression.levels_le e
    have hrest := Expression.allLevels_le rest
    simp only [Expression.allLevels, Expression.allToJson, Expression.allSteps, nestingOfItems]
    omega

end

mutual

theorem Sentence.levels_le : ∀ s : Sentence α, s.levels ≤ s.toJson.nesting + s.steps + 1
  | .block sentences => by
    have hsentences := Sentence.allLevels_le sentences
    simp only [Sentence.levels, Sentence.toJson, Sentence.steps, nesting, nestingOfMembers,
      Nat.max_zero]
    split <;> omega
  | .conditional _ condition thenBranch none => by
    have hcondition := Expression.levels_le condition
    have hthen := Sentence.levels_le thenBranch
    simp only [Sentence.levels, Sentence.toJson, Sentence.steps, nesting, nestingOfMembers,
      Token.nesting_toJson, Nat.max_zero]
    omega
  | .conditional _ condition thenBranch (some otherwise) => by
    have hcondition := Expression.levels_le condition
    have hthen := Sentence.levels_le thenBranch
    have helse := Sentence.levels_le otherwise
    simp only [Sentence.levels, Sentence.toJson, Sentence.steps, nesting, nestingOfMembers,
      Token.nesting_toJson, Nat.max_zero]
    omega
  | .loop _ condition body => by
    have hcondition := Expression.levels_le condition
    have hbody := Sentence.levels_le body
    simp only [Sentence.levels, Sentence.toJson, Sentence.steps, nesting, nestingOfMembers,
      Token.nesting_toJson, Nat.max_zero]
    omega
  | .assignment target _ value => by
    have htarget := Chain.levels_le target
    have hvalue := Expression.levels_le value
    simp only [Sentence.levels, Sentence.toJson, Sentence.steps, nesting, nestingOfMembers,
      Token.nesting_toJson, Nat.max_zero]
    omega
  | .giveBack token none => by
    simp only [Sentence.levels, Sentence.toJson, Sentence.steps, Expression.allLevels, nesting,
      nestingOfMembers, Json.ofOption, Option.toList_none]
    omega
  | .giveBack _ (some value) => by
    have hvalue := Expression.levels_le value
    simp only [Sentence.levels, Sentence.toJson, Sentence.steps, Expression.allLevels,
      Expression.allSteps, nesting, nestingOfMembers, Json.ofOption, Option.toList_some]
    omega
  | .expression e => by
    have he := Expression.levels_le e
    simp only [Sentence.levels, Sentence.toJson, Sentence.steps, nesting, nestingOfMembers,
      Nat.max_zero]
    omega

theorem Sentence.allLevels_le : ∀ ss : List (Sentence α), Sentence.allLevels ss ≤
    nestingOfItems (Sentence.allToJson ss) + Sentence.allSteps ss + 1
  | [] => Nat.zero_le _
  | s :: rest => by
    have hs := Sentence.levels_le s
    have hrest := Sentence.allLevels_le rest
    simp only [Sentence.allLevels, Sentence.allToJson, Sentence.allSteps, nestingOfItems]
    omega

end

/-- The node of a body nests deeper than the document of the body by its steps and one, at most. -/
theorem Block.levels_le (b : Block Unit) :
    b.levels ≤ (Block.toJson b).nesting + b.steps + 1 := by
  have hsentences := Sentence.allLevels_le b
  rw [Block.nesting_toJson, Block.levels, Block.steps, Sentence.levels]
  split <;> omega

/-! ## Programs -/

theorem Json.nesting_lt_of_mem (encode : α → Json) {xs : List α} {x : α} (hx : x ∈ xs) :
    (encode x).nesting < (Json.ofList encode xs).nesting := by
  rw [Json.ofList, nesting]
  exact Nat.lt_succ_of_le (nestingOfItems_le.1 (Nat.le_refl _) _ (List.mem_map_of_mem hx))

theorem Item.nesting_of_mem_bodies {item : Item} {b : Body Unit} (hb : b ∈ item.bodies) :
    (Block.toJson b.block).nesting + 2 ≤ item.toJson.nesting := by
  cases item with
  | struct d => cases hb
  | impl d =>
    obtain ⟨m, hm, rfl⟩ := List.mem_map.1 hb
    have hmethod := nesting_lt_of_mem MethodDef.toJson hm
    simp only [MethodDef.toJson, Item.toJson, ImplDef.toJson, nesting, nestingOfMembers] at hmethod ⊢
    omega
  | start d =>
    cases List.mem_singleton.1 hb
    simp only [Item.toJson, StartDef.toJson, nesting, nestingOfMembers]
    omega

theorem Program.nesting_of_mem_bodies {p : Program} {b : Body Unit} (hb : b ∈ p.bodies) :
    (Block.toJson b.block).nesting + 4 ≤ p.toJson.nesting := by
  obtain ⟨item, hitem, hb⟩ := List.mem_flatMap.1 hb
  have hblock := Item.nesting_of_mem_bodies hb
  have hitems := nesting_lt_of_mem Item.toJson hitem
  simp only [Program.toJson, nesting, nestingOfMembers]
  omega

theorem Body.levels_of_infer {t : SymbolTable} {b : Body Unit} {b' : Body Ty}
    (h : b.infer t = .ok b') : b'.block.levels = b.block.levels := by
  obtain ⟨_, _, _, hblock, rfl⟩ := Body.infer_eq_ok.1 h
  exact Block.levels_of_infer hblock

/-- The checked bodies of a program nest as deep as its bodies. -/
theorem Program.forall_levels_le {p : Program} {A : Analysis} (h : p.analyze = .ok A) (n : Nat) :
    (∀ b ∈ A.bodies, b.block.levels ≤ n) ↔ ∀ b ∈ p.bodies, b.block.levels ≤ n := by
  obtain ⟨t, _, htyped, rfl⟩ := analyze_eq_ok.1 h
  rw [Analysis.ofTyped, List.map_map, List.forall_mem_map]
  refine forall_congr' fun b => forall_congr' fun hb => ?_
  have hstored : ((b.annotated t).map some).block.levels = (b.annotated t).block.levels :=
    Block.levels_map some _
  rw [Function.comp_apply, hstored, Body.levels_of_infer (htyped b hb)]

/-- The snapshot of the bodies of a program is read back exactly where no body nests too deep. -/
theorem Program.parse?_ast_iff {p : Program} {A : Analysis} (h : p.analyze = .ok A)
    (x : AstSnapshot) : AstSnapshot.parse? (AstSnapshot.ofBodies A.bodies).text = some x ↔
      x = .ofBodies A.bodies ∧ ∀ b ∈ p.bodies, b.block.levels + 3 ≤ nestingLimit := by
  have hlimit : nestingLimit = 124 + 3 := rfl
  simp only [AstSnapshot.parse?, AstSnapshot.text, AstSnapshot.exact.decodeText_pretty, hlimit,
    AstSnapshot.nesting_ofBodies_le, Program.forall_levels_le h, Nat.add_le_add_iff_right]

/-- So is the result of its run, one level earlier. -/
theorem Program.parse?_feedback_iff {p : Program} {A : Analysis} (h : p.analyze = .ok A)
    (file : String) (stats : Stats) (x : Feedback) :
    Feedback.parse? (Feedback.accepted file A stats).text = some x ↔
      x = .accepted file A stats ∧ ∀ b ∈ p.bodies, b.block.levels + 4 ≤ nestingLimit := by
  have hlimit : nestingLimit = 123 + 3 + 1 := rfl
  have hread := Feedback.decode_accepted file A stats (show 7 ≤ 123 + 3 by omega) x
  unfold Feedback.parse? Feedback.text decodeText
  rw [parse_pretty, Option.bind_some, hlimit, hread, AstSnapshot.nesting_ofBodies_le,
    Program.forall_levels_le h]
  simp only [Nat.add_le_add_iff_right]

/-- What is written about an accepted program is read back as it was written, or not at all, and it
is read back exactly where the bodies of the program do not nest too deep as nodes.  The program
itself keeps the limit on nesting, and a node nests deeper than its document by no more than the
steps of its chains; so only they can make a node nest too deep, and one level more where the node
stands in the result of a run. -/
theorem Program.snapshots_readable_iff {text : String} {p : Program} {A : Analysis}
    (hparse : Program.parse? text = some p) (h : p.analyze = .ok A) :
    (∀ x, AstSnapshot.parse? (AstSnapshot.ofBodies A.bodies).text = some x ↔
      x = .ofBodies A.bodies ∧ ∀ b ∈ p.bodies, b.block.levels + 3 ≤ nestingLimit) ∧
    (∀ file stats x, Feedback.parse? (Feedback.accepted file A stats).text = some x ↔
      x = .accepted file A stats ∧ ∀ b ∈ p.bodies, b.block.levels + 4 ≤ nestingLimit) ∧
    p.toJson.nesting ≤ nestingLimit ∧
    (∀ b ∈ p.bodies, b.block.levels + 3 ≤ p.toJson.nesting + b.block.steps) ∧
    ((∀ b ∈ p.bodies, p.toJson.nesting + b.block.steps ≤ nestingLimit) →
      AstSnapshot.parse? (AstSnapshot.ofBodies A.bodies).text = some (.ofBodies A.bodies)) ∧
    ((∀ b ∈ p.bodies, p.toJson.nesting + b.block.steps < nestingLimit) → ∀ file stats,
      Feedback.parse? (Feedback.accepted file A stats).text = some (.accepted file A stats)) := by
  have hlevels : ∀ b ∈ p.bodies, b.block.levels + 3 ≤ p.toJson.nesting + b.block.steps := by
    intro b hb
    have hblock := Block.levels_le b.block
    have hprogram := Program.nesting_of_mem_bodies hb
    omega
  refine ⟨parse?_ast_iff h, parse?_feedback_iff h, nesting_of_parse? hparse, hlevels, ?_, ?_⟩
  · intro hfits
    refine (parse?_ast_iff h _).2 ⟨rfl, fun b hb => ?_⟩
    exact Nat.le_trans (hlevels b hb) (hfits b hb)
  · intro hfits file stats
    refine (parse?_feedback_iff h file stats _).2 ⟨rfl, fun b hb => ?_⟩
    exact Nat.lt_of_le_of_lt (hlevels b hb) (hfits b hb)

/-- A program that appends a text to a text so many times, in one chain. -/
def concatenating (times : Nat) : Program :=
  let text : Link Unit := ⟨.builtin .strLiteral "x", .simple, ()⟩
  let concat : Link Unit := ⟨.builtin .objectId "concat", .call [.access ⟨text, []⟩], ()⟩
  ⟨[.start ⟨.builtin .startWord "start", [],
    [.expression (.access ⟨text, List.replicate times concat⟩)]⟩]⟩

theorem parse?_concatenating (times : Nat)
    (h : (concatenating times).toJson.nesting ≤ nestingLimit) :
    Program.parse? (concatenating times).toJson.pretty = some (concatenating times) :=
  Program.parse?_of_written h (parse_pretty _) (concatenating times).written_toJson

/-- With 58 calls the snapshot of the bodies just fits, and the result of the run does not. -/
theorem snapshots_readable_of_concatenating :
    Program.parse? (concatenating 58).toJson.pretty = some (concatenating 58) ∧
      ∃ A, (concatenating 58).analyze = .ok A ∧
        AstSnapshot.parse? (AstSnapshot.ofBodies A.bodies).text = some (.ofBodies A.bodies) ∧
        ∀ file stats, Feedback.parse? (Feedback.accepted file A stats).text = none := by
  have hparse := parse?_concatenating 58 (by decide +kernel)
  have hok : (concatenating 58).analyze.isOk = true := by decide +kernel
  obtain ⟨A, hA⟩ := exists_of_isOk hok
  obtain ⟨hast, hfeedback, _⟩ := Program.snapshots_readable_iff hparse hA
  refine ⟨hparse, A, hA, (hast _).2 ⟨rfl, by decide +kernel⟩, fun file stats => ?_⟩
  refine Option.eq_none_iff_forall_ne_some.2 fun x hx => ?_
  have hfits := ((hfeedback file stats x).1 hx).2
  exact absurd hfits (by decide +kernel)

/-- With 59 calls neither fits, although the program is within the limit. -/
theorem snapshots_unreadable_of_concatenating :
    Program.parse? (concatenating 59).toJson.pretty = some (concatenating 59) ∧
      ∃ A, (concatenating 59).analyze = .ok A ∧
        AstSnapshot.parse? (AstSnapshot.ofBodies A.bodies).text = none ∧
        ∀ file stats, Feedback.parse? (Feedback.accepted file A stats).text = none := by
  have hok : (concatenating 59).analyze.isOk = true := by decide +kernel
  obtain ⟨A, hA⟩ := exists_of_isOk hok
  refine ⟨parse?_concatenating 59 (by decide +kernel), A, hA, ?_, fun file stats => ?_⟩
  · refine Option.eq_none_iff_forall_ne_some.2 fun x hx => ?_
    have hfits := ((Program.parse?_ast_iff hA x).1 hx).2
    exact absurd hfits (by decide +kernel)
  · refine Option.eq_none_iff_forall_ne_some.2 fun x hx => ?_
    have hfits := ((Program.parse?_feedback_iff hA file stats x).1 hx).2
    exact absurd hfits (by decide +kernel)

end StructLang
