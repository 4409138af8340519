import StructLang.Proofs.Relabel
import StructLang.Typing.Check

/-!
# Checking over old results

A tree may carry results when a check begins, and a check that stops leaves some nodes behind that it
has not reached.  `Layers` keeps, at every node, what the check has stored apart from what stood
there before.

The check of a tree is compared with the check of the same tree without results, node by node
(`check_alongside`): both give the same answer and collect the same structs, and at every node the
old result shows exactly where nothing is stored.  One rule for each step of a check
(`Checked.Alongside.part`, `ask`, `done`, `stop`) carries the comparison.
-/

namespace StructLang

variable {ρ ρ' σ τ α β : Type}

/-! ## Layers -/

/-- The result of a node in two layers: the one that a check has stored, and the one that stood there
before. -/
structure Layers where
  stored : Option Ty
  before : Option Ty

/-- What a reader of the node sees: the old result, unless another one is stored. -/
def Layers.visible (l : Layers) : Option Ty := l.stored.or l.before

/-- The three trees are the layers of one tree. -/
def Overlays (map : (Layers → Option Ty) → ρ → τ) (before stored visible : τ) : Prop :=
  ∃ p, map Layers.before p = before ∧ map Layers.stored p = stored ∧ map Layers.visible p = visible

/-- Two checks end alike: with the same answer and the same structs, and the trees are what is stored
and what is seen over the old results. -/
structure Checked.Alongside (map : (Layers → Option Ty) → ρ → τ) (before : τ)
    (fresh after : Checked τ α) : Prop where
  tree : Overlays map before fresh.tree after.tree
  created : after.created = fresh.created
  answer : after.answer = fresh.answer

/-! ## Steps -/

variable {map : (Layers → Option Ty) → ρ → τ} {map' : (Layers → Option Ty) → ρ' → σ}
  {before stored visible : τ} {before' : σ} {created : NameSet}

namespace Checked.Alongside

theorem done {a : α} (h : Overlays map before stored visible) :
    Alongside map before (Checking.done stored a created) (Checking.done visible a created) :=
  ⟨h, rfl, rfl⟩

theorem stop {e : SemanticError} (h : Overlays map before stored visible) :
    Alongside map before (Checking.stop (α := α) stored e created)
      (Checking.stop visible e created) :=
  ⟨h, rfl, rfl⟩

theorem ask {rule : Except SemanticError α} {fresh after : α → Checking τ β}
    (h : Overlays map before stored visible)
    (hnext : ∀ a, Alongside map before (fresh a created) (after a created)) :
    Alongside map before (Checking.ask stored rule fresh created)
      (Checking.ask visible rule after created) := by
  cases rule with
  | error e => exact stop h
  | ok a => exact hnext a

/-- A part is checked alike, and wherever that ends, the whole is put together alike. -/
theorem part {check₀ check : Checking σ α} {place₀ place : σ → τ}
    {next₀ next : σ → α → Checking τ β}
    (hcheck : Alongside map' before' (check₀ created) (check created))
    (hplace : ∀ p, map' Layers.before p = before' →
      Overlays map before (place₀ (map' Layers.stored p)) (place (map' Layers.visible p)))
    (hnext : ∀ p a names, map' Layers.before p = before' →
      Alongside map before (next₀ (map' Layers.stored p) a names)
        (next (map' Layers.visible p) a names)) :
    Alongside map before (check₀.part place₀ next₀ created) (check.part place next created) := by
  obtain ⟨⟨p, hbefore, hstored, hvisible⟩, hcreated, hanswer⟩ := hcheck
  rw [Checking.part, Checking.part]
  rcases hend₀ : check₀ created with ⟨tree₀, names₀, answer₀⟩
  rcases hend : check created with ⟨tree, names, answer⟩
  rw [hend₀, hend] at hcreated hanswer
  rw [hend₀] at hstored
  rw [hend] at hvisible
  dsimp only at hstored hvisible hcreated hanswer
  subst hstored hvisible hcreated hanswer
  cases answer with
  | error e => exact ⟨hplace p hbefore, rfl, rfl⟩
  | ok a => exact hnext p a _ hbefore

end Checked.Alongside

/-! ## Expressions -/

variable {c : Context}

mutual

theorem Expression.check_alongside (created : NameSet) : ∀ p : Expression Layers,
    Checked.Alongside Expression.map (p.map Layers.before)
      ((p.map Layers.stored).check c created) ((p.map Layers.visible).check c created)
  | .access chain => by
    simp only [Expression.map, Expression.check]
    have hbefore (p : Chain Layers) (h : p.map Layers.before = chain.map Layers.before) :
        (Expression.access p).map Layers.before = .access (chain.map Layers.before) := by
      rw [Expression.map, h]
    exact .part (Chain.check_alongside created chain) (fun p h => ⟨.access p, hbefore p h, rfl, rfl⟩)
      fun p ty _ h => .done ⟨.access p, hbefore p h, rfl, rfl⟩
  | .unary operator operand result => by
    simp only [Expression.map, Expression.check, Chain.isSimple_map]
    have hbefore (p : Chain Layers) (h : p.map Layers.before = operand.map Layers.before)
        (ty : Option Ty) : (Expression.unary operator p ⟨ty, result.before⟩).map Layers.before =
          .unary operator (operand.map Layers.before) result.before := by
      rw [Expression.map, h]
    cases UnaryOperator.ofKind? operator.kind with
    | none => exact .stop ⟨.unary operator operand result, rfl, rfl, rfl⟩
    | some op =>
      refine .ask ⟨.unary operator operand result, rfl, rfl, rfl⟩ fun _ => ?_
      refine .part (Chain.check_alongside created operand)
        (fun p h => ⟨.unary operator p result, hbefore p h _, rfl, rfl⟩) fun p ty names h => ?_
      refine .ask ⟨.unary operator p result, hbefore p h _, rfl, rfl⟩ fun ty => ?_
      exact .done ⟨.unary operator p ⟨some ty, result.before⟩, hbefore p h _, rfl, rfl⟩
  | .binary left operator right result => by
    simp only [Expression.map, Expression.check]
    have hbefore (p : Expression Layers) (hp : p.map Layers.before = left.map Layers.before)
        (q : Expression Layers) (hq : q.map Layers.before = right.map Layers.before)
        (ty : Option Ty) : (Expression.binary p operator q ⟨ty, result.before⟩).map Layers.before =
          .binary (left.map Layers.before) operator (right.map Layers.before) result.before := by
      rw [Expression.map, hp, hq]
    cases BinaryOperator.ofKind? operator.kind with
    | none => exact .stop ⟨.binary left operator right result, rfl, rfl, rfl⟩
    | some op =>
      refine .part (Expression.check_alongside created left)
        (fun p hp => ⟨.binary p operator right result, hbefore p hp right rfl _, rfl, rfl⟩)
        fun p l names hp => ?_
      refine .part (Expression.check_alongside names right)
        (fun q hq => ⟨.binary p operator q result, hbefore p hp q hq _, rfl, rfl⟩)
        fun q r names hq => ?_
      refine .ask ⟨.binary p operator q result, hbefore p hp q hq _, rfl, rfl⟩ fun ty => ?_
      exact .done ⟨.binary p operator q ⟨some ty, result.before⟩, hbefore p hp q hq _, rfl, rfl⟩

theorem Chain.check_alongside (created : NameSet) : ∀ p : Chain Layers,
    Checked.Alongside Chain.map (p.map Layers.before)
      ((p.map Layers.stored).check c created) ((p.map Layers.visible).check c created)
  | ⟨head, rest⟩ => by
    simp only [Chain.map, Chain.check]
    have hbefore (p : Link Layers) (hp : p.map Layers.before = head.map Layers.before)
        (q : List (Link Layers)) (hq : Link.mapAll Layers.before q = Link.mapAll Layers.before rest) :
        Chain.map Layers.before ⟨p, q⟩ =
          ⟨head.map Layers.before, Link.mapAll Layers.before rest⟩ := by
      rw [Chain.map, hp, hq]
    refine .part (Link.check_alongside created none head)
      (fun p hp => ⟨⟨p, rest⟩, hbefore p hp rest rfl, rfl, rfl⟩) fun p receiver names hp => ?_
    simp only [Link.token_map]
    exact .part (Link.checkRest_alongside names p.token receiver rest)
      (fun q hq => ⟨⟨p, q⟩, hbefore p hp q hq, rfl, rfl⟩)
      fun q ty _ hq => .done ⟨⟨p, q⟩, hbefore p hp q hq, rfl, rfl⟩

theorem Link.checkRest_alongside (created : NameSet) (token : Token) (receiver : Receiver) :
    ∀ p : List (Link Layers), Checked.Alongside Link.mapAll (Link.mapAll Layers.before p)
      (Link.checkRest c token receiver (Link.mapAll Layers.stored p) created)
      (Link.checkRest c token receiver (Link.mapAll Layers.visible p) created)
  | [] => by
    cases receiver with
    | value ty => exact .done ⟨[], rfl, rfl, rfl⟩
    | struct name => exact .stop ⟨[], rfl, rfl, rfl⟩
  | link :: rest => by
    simp only [Link.mapAll, Link.checkRest]
    have hbefore (p : Link Layers) (hp : p.map Layers.before = link.map Layers.before)
        (q : List (Link Layers)) (hq : Link.mapAll Layers.before q = Link.mapAll Layers.before rest) :
        Link.mapAll Layers.before (p :: q) =
          link.map Layers.before :: Link.mapAll Layers.before rest := by
      rw [Link.mapAll, hp, hq]
    refine .part (Link.check_alongside created (some receiver) link)
      (fun p hp => ⟨p :: rest, hbefore p hp rest rfl, rfl, rfl⟩) fun p next names hp => ?_
    simp only [Link.token_map]
    exact .part (Link.checkRest_alongside names p.token next rest)
      (fun q hq => ⟨p :: q, hbefore p hp q hq, rfl, rfl⟩)
      fun q ty _ hq => .done ⟨p :: q, hbefore p hp q hq, rfl, rfl⟩

theorem Link.check_alongside (created : NameSet) (receiver : Option Receiver) :
    ∀ p : Link Layers, Checked.Alongside Link.map (p.map Layers.before)
      ((p.map Layers.stored).check c receiver created)
      ((p.map Layers.visible).check c receiver created)
  | ⟨token, action, result⟩ => by
    simp only [Link.map, Link.check]
    have hbefore (p : Action Layers) (h : p.map Layers.before = action.map Layers.before)
        (ty : Option Ty) : Link.map Layers.before ⟨token, p, ⟨ty, result.before⟩⟩ =
          ⟨token, action.map Layers.before, result.before⟩ := by
      rw [Link.map, h]
    exact .part (Action.check_alongside created receiver token action)
      (fun p h => ⟨⟨token, p, result⟩, hbefore p h _, rfl, rfl⟩)
      fun p found _ h => .done ⟨⟨token, p, ⟨some found.ty, result.before⟩⟩, hbefore p h _, rfl, rfl⟩

theorem Action.check_alongside (created : NameSet) (receiver : Option Receiver) (token : Token) :
    ∀ p : Action Layers, Checked.Alongside Action.map (p.map Layers.before)
      ((p.map Layers.stored).check c receiver token created)
      ((p.map Layers.visible).check c receiver token created)
  | .simple => by
    simp only [Action.map, Action.check]
    exact .ask ⟨.simple, rfl, rfl, rfl⟩ fun result => .done ⟨.simple, rfl, rfl, rfl⟩
  | .call args => by
    simp only [Action.map, Action.check, Expression.length_mapAll]
    refine .ask ⟨.call args, rfl, rfl, rfl⟩ fun m => ?_
    refine .ask ⟨.call args, rfl, rfl, rfl⟩ fun _ => ?_
    exact .part (Expression.checkArguments_alongside created m.params args)
      (fun p h => ⟨.call p, congrArg Action.call h, rfl, rfl⟩)
      fun p _ _ h => .done ⟨.call p, congrArg Action.call h, rfl, rfl⟩
  | .index position => by
    simp only [Action.map, Action.check]
    refine .ask ⟨.index position, rfl, rfl, rfl⟩ fun base => ?_
    cases base.ty with
    | array element =>
      refine .part (Expression.check_alongside created position)
        (fun p h => ⟨.index p, congrArg Action.index h, rfl, rfl⟩) fun p ty _ h => ?_
      simp only [Expression.position_map]
      refine .ask ⟨.index p, congrArg Action.index h, rfl, rfl⟩ fun _ => ?_
      exact .done ⟨.index p, congrArg Action.index h, rfl, rfl⟩
    | _ => exact .stop ⟨.index position, rfl, rfl, rfl⟩
  | .newInstance args => by
    simp only [Action.map, Action.check, Expression.length_mapAll]
    refine .ask ⟨.newInstance args, rfl, rfl, rfl⟩ fun _ => ?_
    refine .ask ⟨.newInstance args, rfl, rfl, rfl⟩ fun s => ?_
    refine .ask ⟨.newInstance args, rfl, rfl, rfl⟩ fun params => ?_
    refine .ask ⟨.newInstance args, rfl, rfl, rfl⟩ fun _ => ?_
    exact .part (Expression.checkArguments_alongside created params args)
      (fun p h => ⟨.newInstance p, congrArg Action.newInstance h, rfl, rfl⟩)
      fun p _ _ h => .done ⟨.newInstance p, congrArg Action.newInstance h, rfl, rfl⟩
  | .newArray dimension => by
    simp only [Action.map, Action.check]
    refine .ask ⟨.newArray dimension, rfl, rfl, rfl⟩ fun _ => ?_
    cases Primitive.ofName? token.lexeme with
    | none => exact .stop ⟨.newArray dimension, rfl, rfl, rfl⟩
    | some element =>
      refine .part (Expression.check_alongside created dimension)
        (fun p h => ⟨.newArray p, congrArg Action.newArray h, rfl, rfl⟩) fun p ty _ h => ?_
      simp only [Expression.position_map]
      refine .ask ⟨.newArray p, congrArg Action.newArray h, rfl, rfl⟩ fun _ => ?_
      exact .done ⟨.newArray p, congrArg Action.newArray h, rfl, rfl⟩
  | .group inner => by
    simp only [Action.map, Action.check]
    refine .ask ⟨.group inner, rfl, rfl, rfl⟩ fun _ => ?_
    exact .part (Expression.check_alongside created inner)
      (fun p h => ⟨.group p, congrArg Action.group h, rfl, rfl⟩)
      fun p ty _ h => .done ⟨.group p, congrArg Action.group h, rfl, rfl⟩

theorem Expression.checkArguments_alongside (created : NameSet) :
    ∀ (params : List Binding) (p : List (Expression Layers)),
      Checked.Alongside Expression.mapAll (Expression.mapAll Layers.before p)
        (Expression.checkArguments c params (Expression.mapAll Layers.stored p) created)
        (Expression.checkArguments c params (Expression.mapAll Layers.visible p) created)
  | [], [] => .done ⟨[], rfl, rfl, rfl⟩
  | [], arg :: args => .done ⟨arg :: args, rfl, rfl, rfl⟩
  | _ :: _, [] => .done ⟨[], rfl, rfl, rfl⟩
  | param :: params, arg :: args => by
    simp only [Expression.mapAll, Expression.checkArguments]
    have hbefore (p : Expression Layers) (hp : p.map Layers.before = arg.map Layers.before)
        (q : List (Expression Layers))
        (hq : Expression.mapAll Layers.before q = Expression.mapAll Layers.before args) :
        Expression.mapAll Layers.before (p :: q) =
          arg.map Layers.before :: Expression.mapAll Layers.before args := by
      rw [Expression.mapAll, hp, hq]
    refine .part (Expression.check_alongside created arg)
      (fun p hp => ⟨p :: args, hbefore p hp args rfl, rfl, rfl⟩) fun p ty names hp => ?_
    simp only [Expression.position_map]
    refine .ask ⟨p :: args, hbefore p hp args rfl, rfl, rfl⟩ fun _ => ?_
    exact .part (Expression.checkArguments_alongside names params args)
      (fun q hq => ⟨p :: q, hbefore p hp q hq, rfl, rfl⟩)
      fun q _ _ hq => .done ⟨p :: q, hbefore p hp q hq, rfl, rfl⟩

end

/-! ## Sentences -/

theorem Expression.checkCondition_alongside (created : NameSet) (p : Expression Layers) :
    Checked.Alongside Expression.map (p.map Layers.before)
      ((p.map Layers.stored).checkCondition c created)
      ((p.map Layers.visible).checkCondition c created) := by
  refine .part (Expression.check_alongside created p) (fun q h => ⟨q, h, rfl, rfl⟩)
    fun q ty _ h => ?_
  simp only [Expression.position_map]
  exact .ask ⟨q, h, rfl, rfl⟩ fun _ => .done ⟨q, h, rfl, rfl⟩

theorem Sentence.checkAssignment_alongside (created : NameSet) (target : Chain Layers)
    (token : Token) (value : Expression Layers) :
    Checked.Alongside Sentence.map
      (.assignment (target.map Layers.before) token (value.map Layers.before))
      (Sentence.checkAssignment c (target.map Layers.stored) token (value.map Layers.stored) created)
      (Sentence.checkAssignment c (target.map Layers.visible) token (value.map Layers.visible)
        created) := by
  simp only [Sentence.checkAssignment, Chain.last_map, Link.isAssignable_map, Link.token_map]
  have hbefore (p : Chain Layers) (hp : p.map Layers.before = target.map Layers.before)
      (q : Expression Layers) (hq : q.map Layers.before = value.map Layers.before) :
      (Sentence.assignment p token q).map Layers.before =
        .assignment (target.map Layers.before) token (value.map Layers.before) := by
    rw [Sentence.map, hp, hq]
  cases target.last.isAssignable with
  | false => exact .stop ⟨.assignment target token value, hbefore _ rfl _ rfl, rfl, rfl⟩
  | true =>
    refine .part (Chain.check_alongside created target)
      (fun p hp => ⟨.assignment p token value, hbefore p hp _ rfl, rfl, rfl⟩) fun p _ names hp => ?_
    refine .part (Expression.check_alongside names value)
      (fun q hq => ⟨.assignment p token q, hbefore p hp q hq, rfl, rfl⟩) fun q _ _ hq => ?_
    refine .ask ⟨.assignment p token q, hbefore p hp q hq, rfl, rfl⟩ fun _ => ?_
    exact .done ⟨.assignment p token q, hbefore p hp q hq, rfl, rfl⟩

theorem Sentence.checkReturn_alongside (created : NameSet) (token : Token)
    (value : Option (Expression Layers)) :
    Checked.Alongside Sentence.map (.giveBack token (value.map (Expression.map Layers.before)))
      (Sentence.checkReturn c token (value.map (Expression.map Layers.stored)) created)
      (Sentence.checkReturn c token (value.map (Expression.map Layers.visible)) created) := by
  simp only [Sentence.checkReturn.eq_def]
  cases value with
  | none =>
    have hnone : Overlays Sentence.map (.giveBack token none) (.giveBack token none)
        (.giveBack token none) := ⟨.giveBack token none, rfl, rfl, rfl⟩
    cases c.method.returnType with
    | void => exact .done hnone
    | _ => exact .stop hnone
  | some value =>
    have hbefore (p : Expression Layers) (h : p.map Layers.before = value.map Layers.before) :
        (Sentence.giveBack token (some p)).map Layers.before =
          .giveBack token (some (value.map Layers.before)) := by
      rw [Sentence.map, Option.map_some, h]
    cases c.method.returnType with
    | void => exact .stop ⟨.giveBack token (some value), hbefore _ rfl, rfl, rfl⟩
    | _ =>
      refine .part (Expression.check_alongside created value)
        (fun p h => ⟨.giveBack token (some p), hbefore p h, rfl, rfl⟩) fun p ty _ h => ?_
      simp only [Expression.position_map]
      refine .ask ⟨.giveBack token (some p), hbefore p h, rfl, rfl⟩ fun _ => ?_
      exact .done ⟨.giveBack token (some p), hbefore p h, rfl, rfl⟩

mutual

theorem Sentence.check_alongside (created : NameSet) : ∀ p : Sentence Layers,
    Checked.Alongside Sentence.map (p.map Layers.before)
      ((p.map Layers.stored).check c created) ((p.map Layers.visible).check c created)
  | .block sentences => by
    simp only [Sentence.map, Sentence.check]
    exact .part (Sentence.checkAll_alongside created sentences)
      (fun p h => ⟨.block p, congrArg Sentence.block h, rfl, rfl⟩)
      fun p _ _ h => .done ⟨.block p, congrArg Sentence.block h, rfl, rfl⟩
  | .conditional token condition thenBranch none => by
    simp only [Sentence.map, Sentence.check]
    have hbefore (p : Expression Layers) (hp : p.map Layers.before = condition.map Layers.before)
        (q : Sentence Layers) (hq : q.map Layers.before = thenBranch.map Layers.before) :
        (Sentence.conditional token p q none).map Layers.before = .conditional token
          (condition.map Layers.before) (thenBranch.map Layers.before) none := by
      rw [Sentence.map, hp, hq]
    refine .part (Expression.checkCondition_alongside created condition)
      (fun p hp => ⟨.conditional token p thenBranch none, hbefore p hp _ rfl, rfl, rfl⟩)
      fun p _ names hp => ?_
    exact .part (Sentence.check_alongside names thenBranch)
      (fun q hq => ⟨.conditional token p q none, hbefore p hp q hq, rfl, rfl⟩)
      fun q _ _ hq => .done ⟨.conditional token p q none, hbefore p hp q hq, rfl, rfl⟩
  | .conditional token condition thenBranch (some otherwise) => by
    simp only [Sentence.map, Sentence.check]
    have hbefore (p : Expression Layers) (hp : p.map Layers.before = condition.map Layers.before)
        (q : Sentence Layers) (hq : q.map Layers.before = thenBranch.map Layers.before)
        (r : Sentence Layers) (hr : r.map Layers.before = otherwise.map Layers.before) :
        (Sentence.conditional token p q (some r)).map Layers.before = .conditional token
          (condition.map Layers.before) (thenBranch.map Layers.before)
          (some (otherwise.map Layers.before)) := by
      simp only [Sentence.map, hp, hq, hr]
    refine .part (Expression.checkCondition_alongside created condition) (fun p hp =>
      ⟨.conditional token p thenBranch (some otherwise), hbefore p hp _ rfl _ rfl, rfl, rfl⟩)
      fun p _ names hp => ?_
    refine .part (Sentence.check_alongside names thenBranch) (fun q hq =>
      ⟨.conditional token p q (some otherwise), hbefore p hp q hq _ rfl, rfl, rfl⟩)
      fun q _ names hq => ?_
    exact .part (Sentence.check_alongside names otherwise)
      (fun r hr => ⟨.conditional token p q (some r), hbefore p hp q hq r hr, rfl, rfl⟩)
      fun r _ _ hr => .done ⟨.conditional token p q (some r), hbefore p hp q hq r hr, rfl, rfl⟩
  | .loop token condition body => by
    simp only [Sentence.map, Sentence.check]
    have hbefore (p : Expression Layers) (hp : p.map Layers.before = condition.map Layers.before)
        (q : Sentence Layers) (hq : q.map Layers.before = body.map Layers.before) :
        (Sentence.loop token p q).map Layers.before =
          .loop token (condition.map Layers.before) (body.map Layers.before) := by
      rw [Sentence.map, hp, hq]
    refine .part (Expression.checkCondition_alongside created condition)
      (fun p hp => ⟨.loop token p body, hbefore p hp _ rfl, rfl, rfl⟩) fun p _ names hp => ?_
    exact .part (Sentence.check_alongside names body)
      (fun q hq => ⟨.loop token p q, hbefore p hp q hq, rfl, rfl⟩)
      fun q _ _ hq => .done ⟨.loop token p q, hbefore p hp q hq, rfl, rfl⟩
  | .assignment target token value => by
    simp only [Sentence.map, Sentence.check]
    exact Sentence.checkAssignment_alongside created target token value
  | .giveBack token value => by
    simp only [Sentence.map, Sentence.check]
    exact Sentence.checkReturn_alongside created token value
  | .expression e => by
    simp only [Sentence.map, Sentence.check]
    exact .part (Expression.check_alongside created e)
      (fun p h => ⟨.expression p, congrArg Sentence.expression h, rfl, rfl⟩)
      fun p _ _ h => .done ⟨.expression p, congrArg Sentence.expression h, rfl, rfl⟩

theorem Sentence.checkAll_alongside (created : NameSet) : ∀ p : List (Sentence Layers),
    Checked.Alongside Sentence.mapAll (Sentence.mapAll Layers.before p)
      (Sentence.checkAll c (Sentence.mapAll Layers.stored p) created)
      (Sentence.checkAll c (Sentence.mapAll Layers.visible p) created)
  | [] => .done ⟨[], rfl, rfl, rfl⟩
  | s :: rest => by
    simp only [Sentence.mapAll, Sentence.checkAll]
    have hbefore (p : Sentence Layers) (hp : p.map Layers.before = s.map Layers.before)
        (q : List (Sentence Layers))
        (hq : Sentence.mapAll Layers.before q = Sentence.mapAll Layers.before rest) :
        Sentence.mapAll Layers.before (p :: q) =
          s.map Layers.before :: Sentence.mapAll Layers.before rest := by
      rw [Sentence.mapAll, hp, hq]
    refine .part (Sentence.check_alongside created s)
      (fun p hp => ⟨p :: rest, hbefore p hp rest rfl, rfl, rfl⟩) fun p _ names hp => ?_
    exact .part (Sentence.checkAll_alongside names rest)
      (fun q hq => ⟨p :: q, hbefore p hp q hq, rfl, rfl⟩)
      fun q _ _ hq => .done ⟨p :: q, hbefore p hp q hq, rfl, rfl⟩

end

/-- The check of a body over old results, beside the check of the body without them. -/
theorem Block.check_alongside (b : Block (Option Ty)) (created : NameSet) :
    Checked.Alongside Block.map b (b.blank.check c created) (b.check c created) := by
  have h := Sentence.checkAll_alongside (c := c) created (b.map (Layers.mk none))
  have hlayer (layer : Layers → Option Ty) : Sentence.mapAll layer (b.map (Layers.mk none)) =
      b.map (layer ∘ Layers.mk none) := Sentence.mapAll_mapAll layer (Layers.mk none) b
  have hvisible : Layers.visible ∘ Layers.mk none = id := funext fun ty => Option.none_or
  rw [hlayer, hlayer, hlayer, hvisible, show Layers.before ∘ Layers.mk none = id from rfl,
    Block.map, Sentence.mapAll_id] at h
  exact h

end StructLang
