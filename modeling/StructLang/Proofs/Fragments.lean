import Mathlib.Logic.Relation
import StructLang.Proofs.Typing

/-!
# Fragments of a body

A body is made of sentences, expressions, chains and links, one inside the other.  A `Fragment` is
one of them, and `parts` lists the fragments that stand directly in a fragment.  A body contains what
is reached from its sentences by going from fragments to their parts (`Block.Contains`), so whatever
it contains may stand at any depth.

* What holds of a fragment and passes from a fragment to its parts holds of all that the body
  contains.  `Fragment.Typed.of_mem_parts` is such a step, and `Block.Typed.of_contains` the
  conclusion: wherever a link stands in a body that follows the rules, it follows its rule.
* A part is smaller than the fragment in which it stands (`weight_lt_of_mem_parts`), so properties of
  fragments are proved from those of their parts (`Fragment.induction_on_parts`).
* Other results do not change the fragments (`Block.contains_map_iff`), so what a body contains and
  what its assignment contains correspond to each other (`Block.Assignment.exists_fragment`).
-/

namespace StructLang

variable {α β : Type}

/-- A fragment of a body.  A link comes with the link before it in its chain. -/
inductive Fragment (α : Type) where
  | sentence (s : Sentence α)
  | expression (e : Expression α)
  | chain (chain : Chain α)
  | link (before : Option (Link α)) (link : Link α)

/-! ## Parts -/

/-- The links of a list, each with the link before it. -/
def Link.places (before : Option (Link α)) : List (Link α) → List (Fragment α)
  | [] => []
  | link :: rest => .link before link :: Link.places (some link) rest

/-- What stands directly in an action. -/
def Action.parts : Action α → List (Fragment α)
  | .simple => []
  | .call args | .newInstance args => args.map .expression
  | .index e | .newArray e | .group e => [.expression e]

/-- What stands directly in an expression. -/
def Expression.parts : Expression α → List (Fragment α)
  | .access chain => [.chain chain]
  | .unary _ operand _ => [.chain operand]
  | .binary left _ right _ => [.expression left, .expression right]

/-- What stands directly in a sentence. -/
def Sentence.parts : Sentence α → List (Fragment α)
  | .block sentences => sentences.map .sentence
  | .conditional _ condition thenBranch elseBranch =>
    .expression condition :: .sentence thenBranch :: elseBranch.toList.map .sentence
  | .loop _ condition body => [.expression condition, .sentence body]
  | .assignment target _ value => [.chain target, .expression value]
  | .giveBack _ value => value.toList.map .expression
  | .expression e => [.expression e]

namespace Fragment

/-- What stands directly in a fragment. -/
def parts : Fragment α → List (Fragment α)
  | sentence s => s.parts
  | expression e => e.parts
  | chain c => Link.places none (c.head :: c.rest)
  | link _ l => l.action.parts

/-- A fragment is another one or stands in it, at any depth. -/
def Reaches : Fragment α → Fragment α → Prop :=
  Relation.ReflTransGen fun outer inner => inner ∈ outer.parts

end Fragment

/-- A body contains a fragment, at any depth. -/
def Block.Contains (b : Block α) (x : Fragment α) : Prop :=
  ∃ s ∈ b, (Fragment.sentence s).Reaches x

/-- The link before the last one of a chain. -/
def Chain.beforeLast (c : Chain α) : Option (Link α) := (c.head :: c.rest).dropLast.getLast?

theorem Link.last_mem_places (before : Option (Link α)) (link : Link α) (rest : List (Link α)) :
    .link ((link :: rest).dropLast.getLast?.or before) (rest.getLast?.getD link) ∈
      Link.places before (link :: rest) := by
  induction rest generalizing before link with
  | nil => exact List.mem_cons_self
  | cons next rest ih =>
    have hlast := ih (some link) next
    have hprevious : (link :: next :: rest).dropLast.getLast?.or before =
        (next :: rest).dropLast.getLast?.or (some link) := by
      rw [List.dropLast_cons_cons, List.getLast?_cons]
      cases (next :: rest).dropLast.getLast? <;> rfl
    rw [hprevious, List.getLast?_cons, Option.getD_some]
    exact List.mem_cons_of_mem _ hlast

/-- The last link of a chain is a part of it. -/
theorem Chain.last_mem_parts (c : Chain α) :
    .link c.beforeLast c.last ∈ (Fragment.chain c).parts := by
  have h := Link.last_mem_places none c.head c.rest
  rwa [Option.or_none] at h

theorem Block.Contains.of_mem_parts {b : Block α} {x y : Fragment α} (h : b.Contains x)
    (hy : y ∈ x.parts) : b.Contains y := by
  obtain ⟨s, hs, hreaches⟩ := h
  exact ⟨s, hs, hreaches.tail hy⟩

/-! ## The size of fragments -/

/-- The size of a fragment.  The link before a link does not count. -/
noncomputable def Fragment.weight : Fragment α → Nat
  | sentence s => sizeOf s
  | expression e => sizeOf e
  | chain c => sizeOf c
  | link _ l => sizeOf l

theorem Link.weight_lt_of_mem_places {x : Fragment α} {before : Option (Link α)}
    {links : List (Link α)} (h : x ∈ Link.places before links) : x.weight < sizeOf links := by
  induction links generalizing before with
  | nil => cases h
  | cons link rest ih =>
    have hsize : sizeOf (link :: rest) = 1 + sizeOf link + sizeOf rest := rfl
    rcases List.mem_cons.1 h with rfl | hrest
    · show sizeOf link < _
      omega
    · have hlt := ih hrest
      omega

theorem Action.weight_lt_of_mem_parts {x : Fragment α} {action : Action α}
    (h : x ∈ action.parts) : x.weight < sizeOf action := by
  cases action with
  | simple => cases h
  | call args | newInstance args =>
    obtain ⟨e, he, rfl⟩ := List.mem_map.1 h
    have hlt := List.sizeOf_lt_of_mem he
    simp only [Fragment.weight, call.sizeOf_spec, newInstance.sizeOf_spec]
    omega
  | index e | newArray e | group e =>
    rw [List.mem_singleton.1 h]
    simp [Fragment.weight]

theorem Expression.weight_lt_of_mem_parts {x : Fragment α} {e : Expression α} (h : x ∈ e.parts) :
    x.weight < sizeOf e := by
  cases e with
  | access chain =>
    rw [List.mem_singleton.1 h]
    simp [Fragment.weight]
  | unary operator operand result =>
    rw [List.mem_singleton.1 h]
    simp only [Fragment.weight, unary.sizeOf_spec]
    omega
  | binary left operator right result =>
    simp only [parts, List.mem_cons, List.not_mem_nil, or_false] at h
    rcases h with rfl | rfl <;> simp only [Fragment.weight, binary.sizeOf_spec] <;> omega

theorem Sentence.weight_lt_of_mem_parts {x : Fragment α} {s : Sentence α} (h : x ∈ s.parts) :
    x.weight < sizeOf s := by
  cases s with
  | block sentences =>
    obtain ⟨s, hs, rfl⟩ := List.mem_map.1 h
    have hlt := List.sizeOf_lt_of_mem hs
    simp only [Fragment.weight, block.sizeOf_spec]
    omega
  | conditional token condition thenBranch elseBranch =>
    cases elseBranch with
    | none =>
      simp only [parts, Option.toList_none, List.map_nil, List.mem_cons, List.not_mem_nil,
        or_false] at h
      rcases h with rfl | rfl <;> simp only [Fragment.weight, conditional.sizeOf_spec] <;> omega
    | some otherwise =>
      simp only [parts, Option.toList_some, List.map_cons, List.map_nil, List.mem_cons,
        List.not_mem_nil, or_false] at h
      rcases h with rfl | rfl | rfl <;>
        simp only [Fragment.weight, conditional.sizeOf_spec, Option.some.sizeOf_spec] <;> omega
  | loop token condition body =>
    simp only [parts, List.mem_cons, List.not_mem_nil, or_false] at h
    rcases h with rfl | rfl <;> simp only [Fragment.weight, loop.sizeOf_spec] <;> omega
  | assignment target token value =>
    simp only [parts, List.mem_cons, List.not_mem_nil, or_false] at h
    rcases h with rfl | rfl <;> simp only [Fragment.weight, assignment.sizeOf_spec] <;> omega
  | giveBack token value =>
    cases value with
    | none => cases h
    | some value =>
      rw [List.mem_singleton.1 h]
      simp only [Fragment.weight, giveBack.sizeOf_spec, Option.some.sizeOf_spec]
      omega
  | expression e =>
    rw [List.mem_singleton.1 h]
    simp [Fragment.weight]

/-- A part is smaller than the fragment in which it stands. -/
theorem Fragment.weight_lt_of_mem_parts {x y : Fragment α} (h : y ∈ x.parts) :
    y.weight < x.weight := by
  cases x with
  | sentence s => exact Sentence.weight_lt_of_mem_parts h
  | expression e => exact Expression.weight_lt_of_mem_parts h
  | chain c =>
    obtain ⟨head, rest⟩ := c
    have hlt : y.weight < 1 + sizeOf head + sizeOf rest := Link.weight_lt_of_mem_places h
    have hsize := Chain.mk.sizeOf_spec head rest
    show y.weight < sizeOf (Chain.mk head rest)
    omega
  | link before l =>
    obtain ⟨token, action, result⟩ := l
    have hlt : y.weight < sizeOf action := Action.weight_lt_of_mem_parts h
    have hsize := Link.mk.sizeOf_spec token action result
    show y.weight < sizeOf (Link.mk token action result)
    omega

/-- What a fragment has whenever its parts have it, all fragments have. -/
theorem Fragment.induction_on_parts {motive : Fragment α → Prop}
    (step : ∀ x, (∀ y ∈ x.parts, motive y) → motive x) (x : Fragment α) : motive x := by
  -- parts are of all four kinds, so the induction is over their size and not over one type
  induction hweight : x.weight using Nat.strong_induction_on generalizing x with
  | _ n ih =>
    refine step x fun y hy => ih y.weight ?_ y rfl
    rw [← hweight]
    exact weight_lt_of_mem_parts hy

/-! ## Rules -/

section Typed

variable {c : Context}

/-- The assignment that a fragment carries follows the rules.  The receiver of a link is what the
link before it hands on. -/
def Fragment.Typed (c : Context) : Fragment Receiver → Prop
  | sentence s => s.Typed c
  | expression e => e.Typed c
  | chain a => a.Typed c
  | link before l => l.Typed c (before.map Link.result)

theorem Link.RestTyped.of_mem_places {receiver : Receiver} {links : List (Link Receiver)}
    (h : Link.RestTyped c receiver links) {before : Link Receiver} (hbefore : before.result = receiver)
    {x : Fragment Receiver} (hx : x ∈ Link.places (some before) links) : x.Typed c := by
  induction links generalizing receiver before with
  | nil => cases hx
  | cons link rest ih =>
    cases h with
    | cons h hrest =>
      rcases List.mem_cons.1 hx with rfl | hx
      · rw [← hbefore] at h
        exact h
      · exact ih hrest rfl hx

/-- The token of an access denotes something. -/
theorem Link.Typed.exists_denotes {receiver : Option Receiver} {link : Link Receiver}
    (h : link.Typed c receiver) (haccess : link.action.isAccess = true) :
    ∃ result, c.Denotes receiver link.token result := by
  cases h with
  | mk h =>
    cases h with
    | simple hdenotes => exact ⟨_, hdenotes⟩
    | index hbase => exact ⟨_, hbase⟩
    | call | newInstance | newArray | group => cases haccess

theorem Expression.ArgsTyped.of_mem {params : List Binding} {args : List (Expression Receiver)}
    (h : Expression.ArgsTyped c params args) {e : Expression Receiver} (he : e ∈ args) :
    e.Typed c := by
  induction args generalizing params with
  | nil => cases he
  | cons arg args ih =>
    cases h with
    | cons harg _ hargs =>
      rcases List.mem_cons.1 he with rfl | he
      · exact harg
      · exact ih hargs he

theorem Action.Typed.of_mem_parts {receiver : Option Receiver} {token : Token}
    {action : Action Receiver} {result : Receiver} (h : action.Typed c receiver token result)
    {x : Fragment Receiver} (hx : x ∈ action.parts) : x.Typed c := by
  cases h with
  | simple => cases hx
  | call _ hargs | newInstance _ hargs =>
    obtain ⟨e, he, rfl⟩ := List.mem_map.1 hx
    exact hargs.of_mem he
  | index _ h | newArray _ h | group h =>
    rw [List.mem_singleton.1 hx]
    exact h

theorem Sentence.Typed.of_mem_parts {s : Sentence Receiver} (h : s.Typed c)
    {x : Fragment Receiver} (hx : x ∈ s.parts) : x.Typed c := by
  cases h with
  | block h =>
    obtain ⟨s, hs, rfl⟩ := List.mem_map.1 hx
    exact h s hs
  | conditional h _ hthen helse =>
    rcases List.mem_cons.1 hx with rfl | hx
    · exact h
    · rcases List.mem_cons.1 hx with rfl | hx
      · exact hthen
      · obtain ⟨s, hs, rfl⟩ := List.mem_map.1 hx
        exact helse s (Option.mem_toList.1 hs)
  | loop h _ hbody =>
    rcases List.mem_cons.1 hx with rfl | hx
    · exact h
    · rw [List.mem_singleton.1 hx]
      exact hbody
  | assignment _ htarget hvalue _ =>
    rcases List.mem_cons.1 hx with rfl | hx
    · exact htarget
    · rw [List.mem_singleton.1 hx]
      exact hvalue
  | returnNothing => cases hx
  | returnValue _ h _ | expression h =>
    rw [List.mem_singleton.1 hx]
    exact h

/-- The parts of a fragment that follows the rules follow them. -/
theorem Fragment.Typed.of_mem_parts {x y : Fragment Receiver} (h : x.Typed c) (hy : y ∈ x.parts) :
    y.Typed c := by
  cases x with
  | sentence s => exact Sentence.Typed.of_mem_parts h hy
  | expression e =>
    cases h with
    | access h | unary _ _ h =>
      rw [List.mem_singleton.1 hy]
      exact h
    | binary _ hleft hright =>
      rcases List.mem_cons.1 hy with rfl | hy
      · exact hleft
      · rw [List.mem_singleton.1 hy]
        exact hright
  | chain chain =>
    cases h with
    | mk hhead hrest =>
      rcases List.mem_cons.1 hy with rfl | hy
      · exact hhead
      · exact hrest.of_mem_places rfl hy
  | link before l =>
    cases h with
    | mk h => exact h.of_mem_parts hy

/-- Whatever a body that follows the rules contains follows them. -/
theorem Block.Typed.of_contains {b : Block Receiver} (h : b.Typed c) {x : Fragment Receiver}
    (hx : b.Contains x) : x.Typed c := by
  obtain ⟨s, hs, hreaches⟩ := hx
  induction hreaches with
  | refl => exact h s hs
  | tail _ hpart ih => exact ih.of_mem_parts hpart

end Typed

/-! ## Other results -/

/-- The fragment with other results. -/
def Fragment.map (f : α → β) : Fragment α → Fragment β
  | sentence s => .sentence (s.map f)
  | expression e => .expression (e.map f)
  | chain c => .chain (c.map f)
  | link before l => .link (before.map (Link.map f)) (l.map f)

section Map

variable (f : α → β)

theorem Sentence.mapAll_eq (ss : List (Sentence α)) :
    Sentence.mapAll f ss = ss.map (Sentence.map f) := by
  induction ss with
  | nil => rfl
  | cons s ss ih => rw [mapAll, ih, List.map_cons]

theorem Link.places_map (before : Option (Link α)) (links : List (Link α)) :
    Link.places (before.map (Link.map f)) (links.map (Link.map f)) =
      (Link.places before links).map (Fragment.map f) := by
  induction links generalizing before with
  | nil => rfl
  | cons link rest ih => exact congrArg (_ :: ·) (ih (some link))

theorem Fragment.map_expressions (es : List (Expression α)) :
    (es.map (Expression.map f)).map Fragment.expression =
      (es.map Fragment.expression).map (Fragment.map f) := by
  rw [List.map_map, List.map_map]
  rfl

theorem Action.parts_map (action : Action α) :
    (action.map f).parts = action.parts.map (Fragment.map f) := by
  cases action with
  | simple => rfl
  | call args | newInstance args =>
    rw [Action.map, parts, Expression.mapAll_eq, Fragment.map_expressions]
    rfl
  | index e | newArray e | group e => rfl

theorem Sentence.parts_map (s : Sentence α) :
    (s.map f).parts = s.parts.map (Fragment.map f) := by
  cases s with
  | block sentences =>
    rw [Sentence.map, parts, Sentence.mapAll_eq, parts, List.map_map, List.map_map]
    rfl
  | conditional token condition thenBranch elseBranch => cases elseBranch <;> rfl
  | loop token condition body => rfl
  | assignment target token value => rfl
  | giveBack token value => cases value <;> rfl
  | expression e => rfl

/-- The parts of a fragment are the same with other results. -/
theorem Fragment.parts_map (x : Fragment α) : (x.map f).parts = x.parts.map (Fragment.map f) := by
  cases x with
  | sentence s => exact s.parts_map f
  | expression e => cases e <;> rfl
  | chain chain =>
    obtain ⟨head, rest⟩ := chain
    show Link.places none (head.map f :: Link.mapAll f rest) = _
    rw [Link.mapAll_eq]
    exact Link.places_map f none (head :: rest)
  | link before l =>
    obtain ⟨token, action, result⟩ := l
    exact action.parts_map f

theorem Fragment.reaches_map_iff {x : Fragment α} {y : Fragment β} :
    (x.map f).Reaches y ↔ ∃ z, x.Reaches z ∧ z.map f = y := by
  constructor
  · intro h
    induction h with
    | refl => exact ⟨x, .refl, rfl⟩
    | tail _ hpart ih =>
      obtain ⟨z, hz, rfl⟩ := ih
      rw [parts_map] at hpart
      obtain ⟨w, hw, rfl⟩ := List.mem_map.1 hpart
      exact ⟨w, hz.tail hw, rfl⟩
  · rintro ⟨z, hz, rfl⟩
    induction hz with
    | refl => exact .refl
    | tail _ hpart ih =>
      refine ih.tail ?_
      rw [parts_map]
      exact List.mem_map_of_mem hpart

/-- A body with other results contains the same fragments, with other results. -/
theorem Block.contains_map_iff {b : Block α} {y : Fragment β} :
    (b.map f).Contains y ↔ ∃ x, b.Contains x ∧ x.map f = y := by
  unfold Block.Contains
  rw [Block.map, Sentence.mapAll_eq]
  constructor
  · rintro ⟨s', hs', hreaches⟩
    obtain ⟨s, hs, rfl⟩ := List.mem_map.1 hs'
    obtain ⟨x, hx, rfl⟩ := (Fragment.reaches_map_iff f (x := .sentence s)).1 hreaches
    exact ⟨x, ⟨s, hs, hx⟩, rfl⟩
  · rintro ⟨x, ⟨s, hs, hx⟩, rfl⟩
    exact ⟨s.map f, List.mem_map_of_mem hs,
      (Fragment.reaches_map_iff f (x := .sentence s)).2 ⟨x, hx, rfl⟩⟩

end Map

/-- What a body contains is found in its assignment, with what it stands for. -/
theorem Block.Assignment.exists_fragment {c : Context} {b : Block α} {a : Block Receiver}
    (h : b.Assignment c a) {x : Fragment α} (hx : b.Contains x) :
    ∃ y : Fragment Receiver, a.Contains y ∧ y.Typed c ∧ y.map forget = x.map forget := by
  have hsame : (a.map forget).Contains (x.map forget) := by
    rw [h.1]
    exact (Block.contains_map_iff forget).2 ⟨x, hx, rfl⟩
  obtain ⟨y, hy, hshape⟩ := (Block.contains_map_iff forget).1 hsame
  exact ⟨y, hy, h.2.of_contains hy, hshape⟩

/-- Links that differ in their results only have the same token. -/
theorem Link.token_eq_of_map {l : Link α} {l' : Link β} (h : l'.map forget = l.map forget) :
    l'.token = l.token := by
  rw [← Link.token_map forget, h, Link.token_map]

theorem Link.isAccess_eq_of_map {l : Link α} {l' : Link β} (h : l'.map forget = l.map forget) :
    l'.action.isAccess = l.action.isAccess := by
  rw [← Action.isAccess_map forget, ← Link.action_map, h, Link.action_map, Action.isAccess_map]

theorem Block.Assignment.exists_link {c : Context} {b : Block α} {a : Block Receiver}
    (h : b.Assignment c a) {before : Option (Link α)} {link : Link α}
    (hx : b.Contains (.link before link)) :
    ∃ before' link', a.Contains (.link before' link') ∧ link'.Typed c (before'.map Link.result) ∧
      before'.map (Link.map forget) = before.map (Link.map forget) ∧
      link'.map forget = link.map forget := by
  obtain ⟨y, hy, htyped, hshape⟩ := h.exists_fragment hx
  cases y with
  | link before' link' =>
    obtain ⟨hbefore, hlink⟩ := Fragment.link.inj hshape
    exact ⟨before', link', hy, htyped, hbefore, hlink⟩
  | sentence | expression | chain => cases hshape

end StructLang
