import StructLang.Proofs.Fragments

/-!
# Structs that bodies create

The names that `created` collects are exactly those after `new` in the body, at whatever depth they
stand (`Block.mem_created_iff`).  One step says what a fragment adds to the names of its parts
(`Fragment.created_eq`); the rest is an induction over the size of fragments.

What a body creates does not depend on the results that it carries (`Block.creates_map_iff`), so a
checked body creates what the body creates.  Each of these names is one that values can be created of
(`Block.constructs_of_infer`); in particular the root is the only built-in struct among them.
-/

namespace StructLang

variable {α β : Type}

/-! ## Names after `new` -/

namespace Fragment

/-- The structs that a fragment creates. -/
def created : Fragment α → List String
  | sentence s => s.created
  | expression e => e.created
  | chain c => c.created
  | link _ l => l.created

/-- The name after `new`, if the fragment is a link with it. -/
def creates? : Fragment α → Option String
  | link _ ⟨token, .newInstance _, _⟩ => some token.lexeme
  | _ => none

end Fragment

theorem Expression.allCreated_eq (es : List (Expression α)) :
    Expression.allCreated es = (es.map Fragment.expression).flatMap Fragment.created := by
  induction es with
  | nil => rfl
  | cons e es ih => exact congrArg (e.created ++ ·) ih

theorem Sentence.allCreated_eq (ss : List (Sentence α)) :
    Sentence.allCreated ss = (ss.map Fragment.sentence).flatMap Fragment.created := by
  induction ss with
  | nil => rfl
  | cons s ss ih => exact congrArg (s.created ++ ·) ih

theorem Link.allCreated_eq (before : Option (Link α)) (links : List (Link α)) :
    Link.allCreated links = (Link.places before links).flatMap Fragment.created := by
  induction links generalizing before with
  | nil => rfl
  | cons link rest ih => exact congrArg (link.created ++ ·) (ih (some link))

theorem Sentence.created_eq (s : Sentence α) : s.created = s.parts.flatMap Fragment.created := by
  cases s with
  | block sentences => exact Sentence.allCreated_eq sentences
  | conditional token condition thenBranch elseBranch =>
    cases elseBranch <;> simp [Sentence.created, parts, Fragment.created]
  | loop token condition body => simp [Sentence.created, parts, Fragment.created]
  | assignment target token value => simp [Sentence.created, parts, Fragment.created]
  | giveBack token value => cases value <;> simp [Sentence.created, parts, Fragment.created]
  | expression e => simp [Sentence.created, parts, Fragment.created]

/-- A fragment creates what its parts create and, if it is a link with `new`, the name after it. -/
theorem Fragment.created_eq (x : Fragment α) :
    x.created = x.creates?.toList ++ x.parts.flatMap Fragment.created := by
  cases x with
  | sentence s => exact s.created_eq
  | expression e => cases e <;> simp [created, creates?, parts, Expression.created, Expression.parts]
  | chain c =>
    obtain ⟨head, rest⟩ := c
    exact Link.allCreated_eq none (head :: rest)
  | link before l =>
    obtain ⟨token, action, result⟩ := l
    cases action with
    | simple => rfl
    | call args => exact Expression.allCreated_eq args
    | newInstance args => exact congrArg (token.lexeme :: ·) (Expression.allCreated_eq args)
    | index e | newArray e | group e => exact (List.append_nil e.created).symm

theorem Fragment.mem_created_iff {x : Fragment α} {name : String} :
    name ∈ x.created ↔ ∃ y, x.Reaches y ∧ y.creates? = some name := by
  constructor
  · induction x using Fragment.induction_on_parts with
    | step x ih =>
      intro h
      rw [created_eq, List.mem_append, Option.mem_toList, List.mem_flatMap] at h
      rcases h with hself | ⟨y, hy, hname⟩
      · exact ⟨x, .refl, hself⟩
      · obtain ⟨z, hz, hfound⟩ := ih y hy hname
        exact ⟨z, .head hy hz, hfound⟩
  · rintro ⟨y, hreaches, hname⟩
    induction hreaches using Relation.ReflTransGen.head_induction_on with
    | refl =>
      rw [created_eq]
      exact List.mem_append_left _ (Option.mem_toList.2 hname)
    | head hpart _ ih =>
      rw [created_eq]
      exact List.mem_append_right _ (List.mem_flatMap.2 ⟨_, hpart, ih⟩)

theorem Fragment.creates?_map (f : α → β) (x : Fragment α) : (x.map f).creates? = x.creates? := by
  cases x with
  | sentence s => rfl
  | expression e => rfl
  | chain c => rfl
  | link before l =>
    obtain ⟨token, action, result⟩ := l
    cases action <;> rfl

/-- Somewhere in the body, the name stands after `new`. -/
def Block.Creates (b : Block α) (name : String) : Prop :=
  ∃ x, b.Contains x ∧ x.creates? = some name

/-- The names that are collected are those after `new`. -/
theorem Block.mem_created_iff {b : Block α} {name : String} :
    name ∈ b.created ↔ b.Creates name := by
  rw [Block.created, Sentence.allCreated_eq, List.mem_flatMap]
  constructor
  · rintro ⟨x, hx, hname⟩
    obtain ⟨s, hs, rfl⟩ := List.mem_map.1 hx
    obtain ⟨y, hreaches, hy⟩ := Fragment.mem_created_iff.1 hname
    exact ⟨y, ⟨s, hs, hreaches⟩, hy⟩
  · rintro ⟨y, ⟨s, hs, hreaches⟩, hy⟩
    exact ⟨.sentence s, List.mem_map_of_mem hs, Fragment.mem_created_iff.2 ⟨y, hreaches, hy⟩⟩

/-- What a body creates does not depend on its results. -/
theorem Block.creates_map_iff (f : α → β) {b : Block α} {name : String} :
    (b.map f).Creates name ↔ b.Creates name := by
  constructor
  · rintro ⟨y, hy, hname⟩
    obtain ⟨x, hx, rfl⟩ := (Block.contains_map_iff f).1 hy
    exact ⟨x, hx, (x.creates?_map f).symm.trans hname⟩
  · rintro ⟨x, hx, hname⟩
    exact ⟨x.map f, (Block.contains_map_iff f).2 ⟨x, hx, rfl⟩, (x.creates?_map f).trans hname⟩

/-! ## Accepted bodies -/

variable {c : Context}

/-- Values can be created of every one of the names. -/
def Context.ConstructsAll (c : Context) (names : List String) : Prop :=
  ∀ name ∈ names, ∃ params, c.Constructs name params

theorem Link.Typed.constructs {receiver : Option Receiver} {token : Token}
    {args : List (Expression Receiver)} {result : Receiver}
    (h : Link.Typed c receiver ⟨token, .newInstance args, result⟩) :
    ∃ params, c.Constructs token.lexeme params := by
  cases h with
  | mk h =>
    cases h with
    | newInstance hparams => exact ⟨_, hparams⟩

theorem Fragment.Typed.constructs {x : Fragment Receiver} (h : x.Typed c) {name : String}
    (hname : x.creates? = some name) : ∃ params, c.Constructs name params := by
  match x, hname with
  | link before ⟨token, .newInstance args, result⟩, rfl => exact Link.Typed.constructs h

theorem Block.Typed.constructs {b : Block Receiver} (h : b.Typed c) {name : String}
    (hname : b.Creates name) : ∃ params, c.Constructs name params := by
  obtain ⟨x, hx, hname⟩ := hname
  exact (h.of_contains hx).constructs hname

theorem Block.creates_of_infer {b : Block α} {b' : Block Ty} (h : b.infer c = .ok b')
    {name : String} : b'.Creates name ↔ b.Creates name := by
  obtain ⟨a, _, hshape, rfl⟩ := Block.exists_typed h
  rw [Block.creates_map_iff, ← Block.creates_map_iff forget, hshape, Block.creates_map_iff]

/-- A checked body creates values only of structs that allow it. -/
theorem Block.constructs_of_infer {b : Block α} {b' : Block Ty} (h : b.infer c = .ok b') :
    c.ConstructsAll b'.created := by
  obtain ⟨a, htyped, _, rfl⟩ := Block.exists_typed h
  intro name hname
  exact htyped.constructs ((Block.creates_map_iff _).1 (Block.mem_created_iff.1 hname))

end StructLang
