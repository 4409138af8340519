import StructLang.Proofs.Calls
import StructLang.Proofs.Lineage

/-!
# Completed tables

`Completion u t` says that `t` is what a first completion makes of the table `u`, which any calls may
have made (`completion_of_consolidate`).  This module collects what later results read off it.

* The tree.  Structs keep their parents and their children (`kept`), and every struct is rooted
  (`rooted`), so that lineages are the same before and after.
* The members.  In every struct, built in or declared, the methods and the attributes are numbered
  from zero (`laid`).
* One step of inheritance.  A declared struct is laid out over its parent, whose methods it may
  override (`over_parent`).
-/

namespace StructLang

/-! ## The members of built-in structs -/

theorem NameMap.mem_of_get?_ofList {α : Type} {l : List (String × α)} {n : String} {a : α}
    (h : (NameMap.ofList l).get? n = some a) : (n, a) ∈ l := by
  have hfold : ∀ (l : List (String × α)) (m : NameMap α),
      (l.foldl (fun m e => m.insert e.1 e.2) m).get? n = some a →
        (n, a) ∈ l ∨ m.get? n = some a := by
    intro l
    induction l with
    | nil => exact fun m h => .inr h
    | cons e l ih =>
      intro m h
      rcases ih _ h with hmem | hget
      · exact .inl (List.mem_cons_of_mem _ hmem)
      · rw [NameMap.get?_insert] at hget
        split at hget
        · next hn =>
          cases hget
          exact .inl (hn ▸ List.mem_cons_self)
        · exact .inr hget
  rcases hfold l .empty h with hmem | hget
  · exact hmem
  · cases hget

namespace Builtin

/-- The methods of a built-in struct are numbered in the order of their signatures. -/
theorem laid_struct {kind : TokenKind} {name : String} {parent : Option String}
    {methods : List Signature} (hnodup : (methods.map (·.name)).Nodup) :
    (struct kind name parent methods).Laid
      (methods.zipIdx.map fun p => method name p.1 p.2) [] := by
  have hnames : (methods.zipIdx.map fun p => method name p.1 p.2).map Method.name =
      methods.map (·.name) := by
    have hfst := congrArg (List.map Signature.name) (List.zipIdx_map_fst 0 methods)
    rw [List.map_map] at hfst ⊢
    exact hfst
  have hkeys : (methods.zipIdx.map fun p => (p.1.name, method name p.1 p.2)).map Prod.fst =
      methods.map (·.name) := by
    rw [← hnames, List.map_map, List.map_map]
    rfl
  refine ⟨.of_get? (hnames ▸ hnodup) ?_ ?_ ?_, .empty, ?_, rfl⟩
  · intro i m hm
    rw [List.getElem?_map, List.getElem?_zipIdx, Option.map_map] at hm
    obtain ⟨s, _, rfl⟩ := Option.map_eq_some_iff.1 hm
    show 0 + i = i
    omega
  · intro m hm
    obtain ⟨p, hp, rfl⟩ := List.mem_map.1 hm
    exact NameMap.get?_foldl_insert_of_mem Prod.fst Prod.snd (hkeys ▸ hnodup)
      (List.mem_map_of_mem hp) .empty
  · intro n hn
    rw [hnames, ← hkeys] at hn
    exact NameMap.get?_foldl_insert_of_not_mem Prod.fst Prod.snd hn .empty
  · rw [List.length_map, List.length_zipIdx]
    rfl

/-- The members of a built-in struct are its own. -/
structure HoldsOwn (b : Struct) (ms : List Method) : Prop where
  laid : b.Laid ms []
  owners : ∀ m ∈ ms, m.owner = some b.name

theorem holdsOwn_struct {kind : TokenKind} {name : String} {parent : Option String}
    {methods : List Signature} (hnodup : (methods.map (·.name)).Nodup) :
    ∃ ms, HoldsOwn (struct kind name parent methods) ms := by
  refine ⟨_, laid_struct hnodup, ?_⟩
  intro m hm
  obtain ⟨p, _, rfl⟩ := List.mem_map.1 hm
  rfl

theorem holdsOwn_of_get? {n : String} {b : Struct} (h : structs.get? n = some b) :
    ∃ ms, HoldsOwn b ms := by
  obtain ⟨s, hs, heq⟩ := List.mem_map.1 (NameMap.mem_of_get?_ofList h)
  cases heq
  rcases List.mem_cons.1 hs with rfl | hs
  · exact ⟨[], ⟨.empty, .empty, rfl, rfl⟩, by simp⟩
  · rcases List.mem_cons.1 hs with rfl | hs
    · exact holdsOwn_struct (by decide)
    · obtain ⟨p, _, hp⟩ := List.mem_flatMap.1 hs
      rcases List.mem_cons.1 hp with rfl | hp
      · cases p <;> exact holdsOwn_struct (by decide)
      · rw [List.mem_singleton.1 hp]
        exact holdsOwn_struct (by decide)

end Builtin

namespace SymbolTable

variable {u t : SymbolTable} {a c n p : String} {s sp : Struct}

/-! ## Completions -/

/-- The table `t` is what a first completion makes of the table `u`. -/
structure Completion (u t : SymbolTable) : Prop where
  sound : u.Sound
  complete : u.Complete
  merges : ∀ n, u.contains n = true → ∃ s, u.Merged n s
  completes : u.Completes t

theorem completion_of_consolidate {calls : List Call}
    (hrun : consolidate.run (declared calls) = .ok () t) : Completion (declared calls) t := by
  have hsound := sound_declared calls
  have hok := (consolidate_eq_ok hsound (consolidated_declared calls)).1 hrun
  exact ⟨hsound, hok.1, hok.2.1, hok.2.2⟩

namespace Completion

theorem merged (h : Completion u t) (hs : t.struct? n = some s) : u.Merged n s :=
  (h.completes.struct?_iff n s).1 hs

theorem rooted_before (h : Completion u t) : ∀ n, u.contains n = true → u.Rooted n :=
  fun _ hn => h.complete.rooted h.sound hn

/-- Only the members of a struct change, and the mark that it is complete. -/
theorem kept (h : Completion u t) (hs : t.struct? n = some s) :
    ∃ own, u.struct? n = some own ∧ s = { own with
      methods := s.methods, nextMethodSlot := s.nextMethodSlot, attributes := s.attributes
      nextAttributeSlot := s.nextAttributeSlot, consolidated := true } := by
  have hmerged := h.merged hs
  obtain ⟨own, hown⟩ := hmerged.exists_struct?
  refine ⟨own, hown, ?_⟩
  cases hbuiltin : Builtin.structs.contains n with
  | false => exact (hmerged.mergedFrom h.sound h.rooted_before (.inr hbuiltin) hown).keeps
  | true =>
    by_cases hroot : n = Builtin.root
    · subst hroot
      exact (hmerged.mergedFrom h.sound h.rooted_before (.inl rfl) hown).keeps
    · have hsame : s = own := by
        have hbefore := (Merged.of_builtin hbuiltin).1 hmerged
        exact Option.some.inj (hbefore.symm.trans hown)
      obtain ⟨b, hb⟩ := NameMap.contains_iff.1 hbuiltin
      have hcompleted : own.consolidated = true := by
        rw [h.sound.registry.builtin n b hroot hb] at hown
        cases hown
        exact (Builtin.underRoot_of_get? hb hroot).2.2.1
      rw [hsame, ← hcompleted]

theorem name_eq (h : Completion u t) (hs : t.struct? n = some s) : s.name = n := by
  obtain ⟨own, hown, hkept⟩ := h.kept hs
  have hname : own.name = n := h.sound.registry.name_eq hown
  rw [hkept]
  exact hname

/-! ## The tree -/

theorem contains_eq (h : Completion u t) (n : String) : t.contains n = u.contains n := by
  rw [Bool.eq_iff_iff]
  constructor
  · intro hn
    obtain ⟨s, hs⟩ := contains_iff_struct?.1 hn
    obtain ⟨own, hown, _⟩ := h.kept hs
    exact contains_iff_struct?.2 ⟨own, hown⟩
  · intro hn
    obtain ⟨s, hs⟩ := h.merges n hn
    exact contains_iff_struct?.2 ⟨s, (h.completes.struct?_iff n s).2 hs⟩

theorem parent?_eq (h : Completion u t) (n : String) : t.parent? n = u.parent? n := by
  cases hs : t.struct? n with
  | none =>
    have hnone : u.struct? n = none := by
      rw [← contains_eq_false_iff_struct?, ← h.contains_eq, contains_eq_false_iff_struct?]
      exact hs
    rw [parent?_of_struct?_eq_none hs, parent?_of_struct?_eq_none hnone]
  | some s =>
    obtain ⟨own, hown, hkeeps⟩ := h.kept hs
    rw [parent?_of_struct? hs, parent?_of_struct? hown, hkeeps]

theorem extends_eq (h : Completion u t) : t.Extends = u.Extends := by
  funext c p
  unfold Extends
  rw [h.parent?_eq]

theorem below_eq (h : Completion u t) : t.Below = u.Below := by
  unfold Below
  rw [h.extends_eq]

theorem parent?_root (h : Completion u t) : t.parent? Builtin.root = none :=
  (h.parent?_eq _).trans h.sound.registry.parent?_root

theorem rooted (h : Completion u t) (hn : t.contains n = true) : t.Rooted n := by
  unfold Rooted
  rw [h.below_eq]
  exact h.rooted_before n (h.contains_eq n ▸ hn)

/-- The children of a struct are the structs with it as their parent. -/
theorem faithful (h : Completion u t) : t.Faithful := by
  intro p s c hs
  obtain ⟨own, hown, hkeeps⟩ := h.kept hs
  rw [hkeeps, h.extends_eq]
  exact h.sound.hierarchy.faithful p own c hown

theorem contains_of_below (h : Completion u t) (hn : t.contains n = true) (hbelow : t.Below n a) :
    t.contains a = true := by
  induction hbelow with
  | refl => exact hn
  | tail _ hextends _ =>
    rw [h.contains_eq]
    exact h.sound.hierarchy.contains_parent h.sound.registry (h.extends_eq ▸ hextends)

/-! ## The members -/

theorem holdsOwn_of_builtin (h : Completion u t) (hn : Builtin.structs.contains n = true)
    (hs : t.struct? n = some s) :
    u.struct? n = some s ∧ ∃ ms, Builtin.HoldsOwn s ms := by
  have hbefore := (Merged.of_builtin hn).1 (h.merged hs)
  refine ⟨hbefore, ?_⟩
  by_cases hroot : n = Builtin.root
  · subst hroot
    exact ⟨[], h.sound.registry.laid_root hbefore, by simp⟩
  · obtain ⟨b, hb⟩ := NameMap.contains_iff.1 hn
    rw [h.sound.registry.builtin n b hroot hb] at hbefore
    cases hbefore
    exact Builtin.holdsOwn_of_get? hb

/-- A declared struct is laid out over its parent. -/
theorem over_parent (h : Completion u t) (hn : Builtin.structs.contains n = false)
    (hs : t.struct? n = some s) : ∃ p sp own, t.Extends n p ∧ t.struct? p = some sp ∧
      u.struct? n = some own ∧
      Struct.Fits sp.methodsBySlot own.methodsBySlot sp.attributesBySlot own.attributesBySlot ∧
      s.Laid (Method.layout sp.methodsBySlot own.methodsBySlot)
        (Attr.layout sp.attributesBySlot own.attributesBySlot) := by
  have hmerged := h.merged hs
  obtain ⟨own, hown⟩ := hmerged.exists_struct?
  obtain ⟨p, sp, hp, hparent, hfits, hlaid, _⟩ :=
    (merged_iff_of_user h.sound h.rooted_before hn hown).1 hmerged
  refine ⟨p, sp, own, ?_, (h.completes.struct?_iff p sp).2 hparent, hown, hfits, hlaid⟩
  rw [h.extends_eq]
  exact (parent?_of_struct? hown).trans hp

theorem laid (h : Completion u t) (hs : t.struct? n = some s) :
    s.Laid s.methodsBySlot s.attributesBySlot := by
  cases hn : Builtin.structs.contains n with
  | true =>
    obtain ⟨_, ms, hown⟩ := h.holdsOwn_of_builtin hn hs
    rw [hown.laid.methodsBySlot_eq, hown.laid.attributesBySlot_eq]
    exact hown.laid
  | false =>
    obtain ⟨_, _, _, _, _, _, _, hlaid⟩ := h.over_parent hn hs
    rw [hlaid.methodsBySlot_eq, hlaid.attributesBySlot_eq]
    exact hlaid

/-- A built-in struct extends the root. -/
theorem eq_root_of_extends (h : Completion u t) (hextends : t.Extends n p)
    (hn : Builtin.structs.contains n = true) : p = Builtin.root := by
  rw [h.extends_eq] at hextends
  have hne := h.sound.registry.ne_root hextends
  obtain ⟨b, hb⟩ := NameMap.contains_iff.1 hn
  have hparent := parent?_of_struct? (h.sound.registry.builtin n b hne hb)
  rw [Extends, hparent, (Builtin.underRoot_of_get? hb hne).1] at hextends
  exact (Option.some.inj hextends).symm

end Completion

end SymbolTable

end StructLang
