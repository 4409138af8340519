import StructLang.Proofs.Creation
import StructLang.Proofs.Layers

/-!
# Checking annotates

A check changes nothing of a tree but its results, and the results that the tree carries have no
influence on it (`Block.check_annotates`).

* A tree has the same form whatever results it has been given on the way (`Block.map_forget`), and
  creates the same structs (`Block.created_map`).
* Checks of the same form without results are the same check (`Block.blank_congr`), and every other
  check runs alongside it (`Block.check_alongside`).
* A body that is accepted carries the types that `infer` finds, and these depend on the form alone
  (`Block.infer_congr`).  So a second check finds what it would store.
-/

namespace StructLang

variable {α β γ : Type}

/-! ## Form -/

section Map

variable (f : α → β)

/-- The form of a body does not depend on its results. -/
theorem Block.map_forget (b : Block α) : (b.map f).map forget = b.map forget :=
  Sentence.mapAll_mapAll forget f b

/-! ## What is created -/

/-- A fragment creates the same structs with other results. -/
theorem Fragment.created_map (x : Fragment α) : (x.map f).created = x.created := by
  induction x using Fragment.induction_on_parts with
  | step x ih =>
    rw [created_eq, created_eq x, creates?_map, parts_map, List.flatMap_map, List.flatMap_congr ih]

theorem Block.created_map (b : Block α) : (b.map f).created = b.created := by
  rw [Block.created, Block.created, Block.map, Sentence.allCreated_eq, Sentence.allCreated_eq,
    Sentence.mapAll_eq, List.map_map, List.flatMap_map, List.flatMap_map]
  exact List.flatMap_congr fun s _ => Fragment.created_map f (.sentence s)

end Map

/-- Bodies of the same form are the same without results. -/
theorem Block.blank_congr {b : Block α} {b₀ : Block β} (h : b₀.map forget = b.map forget) :
    b₀.blank = b.blank := by
  have hblank {γ : Type} (b : Block γ) : (b.map forget).blank = b.blank :=
    Sentence.mapAll_mapAll (fun _ => none) forget b
  rw [← hblank b₀, h, hblank]

theorem Block.created_congr {b : Block α} {b₀ : Block β} (h : b₀.map forget = b.map forget) :
    b₀.created = b.created := by
  rw [← Block.created_map forget b₀, h, Block.created_map]

/-! ## Checking -/

section Check

variable {c : Context} {b b₀ : Block (Option Ty)}

theorem Block.infer_congr (h : b₀.map forget = b.map forget) : b₀.infer c = b.infer c := by
  have hforget (b : Block (Option Ty)) : (b.map forget).infer c = b.infer c :=
    Sentence.inferAll_map c forget b
  rw [← hforget b₀, h, hforget]

/-- The layers of a tree have its form. -/
theorem Block.map_forget_of_overlays {stored visible : Block (Option Ty)}
    (h : Overlays Block.map b stored visible) : visible.map forget = b.map forget := by
  obtain ⟨p, rfl, rfl, rfl⟩ := h
  rw [Block.map_forget, Block.map_forget]

/-- An accepted body is left with the types of its form, and what it creates has been collected. -/
theorem Block.exists_check_eq {created : NameSet} (h : (b.check c created).answer = .ok ()) :
    ∃ typed : Block Ty, ∀ b₀ : Block (Option Ty), b₀.map forget = b.map forget → ∀ created,
      b₀.check c created = ⟨typed.map some, created.insertAll b.created, .ok ()⟩ := by
  obtain ⟨typed, htyped⟩ := Block.answer_check_eq_ok.1 h
  have hshape : typed.map forget = b.map forget := by
    obtain ⟨a, _, hshape, rfl⟩ := Block.exists_typed htyped
    rw [Block.map_forget, hshape]
  refine ⟨typed, fun b₀ h₀ created => ?_⟩
  rw [← Block.created_congr hshape]
  exact Block.check_eq_of_infer ((Block.infer_congr h₀).trans htyped) created

end Check

/-- Checking a body only gives it types.  The body keeps its form, also where the check stops.

Whatever results a body of this form carries, the answer and the collected structs are the same.  The
same types are stored, those that a check of the body without results stores; the old results show
where the check has not come.

If the body is accepted, every node has a type, the structs that the body creates have been
collected, and checking it again leaves it as it is. -/
theorem Block.check_annotates (c : Context) (created : NameSet) (b : Block (Option Ty)) :
    let fresh := b.blank.check c created
    let after := b.check c created
    after.tree.map forget = b.map forget ∧
    (∀ b₀ : Block (Option Ty), b₀.map forget = b.map forget →
      (b₀.check c created).answer = after.answer ∧ (b₀.check c created).created = after.created ∧
      Overlays Block.map b₀ fresh.tree (b₀.check c created).tree) ∧
    (after.answer = .ok () →
      (∃ typed : Block Ty, ∀ b₀ : Block (Option Ty), b₀.map forget = b.map forget →
        (b₀.check c created).tree = typed.map some) ∧
      after.created = created.insertAll b.created ∧
      ∀ again, after.tree.check c again = ⟨after.tree, again.insertAll b.created, .ok ()⟩) := by
  intro fresh after
  have hafter : Checked.Alongside Block.map b fresh after := b.check_alongside created
  have hform : after.tree.map forget = b.map forget := Block.map_forget_of_overlays hafter.tree
  refine ⟨hform, fun b₀ h₀ => ?_, fun hok => ?_⟩
  · have hfresh := b₀.check_alongside (c := c) created
    rw [Block.blank_congr h₀] at hfresh
    exact ⟨hfresh.answer.trans hafter.answer.symm, hfresh.created.trans hafter.created.symm,
      hfresh.tree⟩
  · obtain ⟨typed, htyped⟩ := Block.exists_check_eq hok
    have hend : after = ⟨typed.map some, created.insertAll b.created, .ok ()⟩ :=
      htyped b rfl created
    refine ⟨⟨typed, fun b₀ h₀ => by rw [htyped b₀ h₀]⟩, by rw [hend], fun again => ?_⟩
    rw [htyped after.tree hform again, hend]

/-- A body that creates a value, with a result that is not its type. -/
def staleCreation : Block (Option Ty) :=
  [.expression (.access ⟨⟨.builtin .structId Builtin.root, .newInstance [], some .nil⟩, []⟩)]

/-- A literal as a whole expression, with a result. -/
def numeral (result : Option Ty) : Chain (Option Ty) :=
  ⟨⟨.builtin .intLiteral "1", .simple, result⟩, []⟩

/-- A body that is refused at its first sentence, with a result that is not a type at its last. -/
def staleRefusal : Block (Option Ty) :=
  [.assignment (numeral none) (.builtin .assign "=") (.access (numeral none)),
   .expression (.access (numeral (some .nil)))]

/-- The stale result is replaced in a body that is accepted, and stays after the refusal. -/
theorem check_annotates_of_staleCreation :
    let c : Context := ⟨stateAfter SymbolTable.consolidate .new,
      .declare (.builtin .startWord "start") none .start .void 0⟩
    (∃ typed : Block Ty, (staleCreation.check c .empty).answer = .ok () ∧
      (staleCreation.check c .empty).tree = typed.map some ∧
      (staleCreation.blank.check c .empty).tree = typed.map some ∧
      (staleCreation.check c .empty).created.names = [Builtin.root]) ∧
    (staleRefusal.check c .empty).answer.isOk = false ∧
    (staleRefusal.check c .empty).tree = staleRefusal ∧
    Overlays Block.map staleRefusal (staleRefusal.blank.check c .empty).tree
      (staleRefusal.check c .empty).tree := by
  intro c
  have hok : (staleCreation.check c .empty).answer = .ok () := by decide +kernel
  obtain ⟨⟨typed, htyped⟩, hcreated, _⟩ := (Block.check_annotates c .empty staleCreation).2.2 hok
  have hblank : staleCreation.blank.map forget = staleCreation.map forget := Block.map_forget _ _
  have hkept := ((Block.check_annotates c .empty staleRefusal).2.1 staleRefusal rfl).2.2
  refine ⟨⟨typed, hok, htyped _ rfl, htyped _ hblank, ?_⟩, rfl, rfl, hkept⟩
  rw [hcreated]
  decide

end StructLang
