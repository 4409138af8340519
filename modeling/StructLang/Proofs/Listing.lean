import StructLang.Member
import StructLang.Proofs.NameMap

/-!
# Listings of members

The members of a struct are held in a map by name, and read in slot order.  `Listing` relates the
two views: `Listing name slot m l` says that the entries of `m` are the elements of `l`, every one
under its own name and with its place in `l` as its slot.  A map has at most one such list, the list
is what sorting by slot gives (`Listing.sort_eq`), and the list determines the map
(`Listing.map_unique`).

There are three groups of lemmas.

* Sorting by slot is a permutation into slot order, and a list in strict slot order is what sorting
  any permutation of it gives.
* The two views of a listing.
* How a listing grows by a member (`Listing.push`) and how a member is replaced by another one of
  its name and slot (`Listing.replace`).
-/

namespace StructLang

variable {α : Type}

/-! ## Sorting by slot -/

theorem slotLe_iff {a b : Nat × String} :
    slotLe a b = true ↔ a.1 < b.1 ∨ a.1 = b.1 ∧ a.2 ≤ b.2 := by
  simp [slotLe]

theorem slotLe_trans (a b c : Nat × String) (hab : slotLe a b = true) (hbc : slotLe b c = true) :
    slotLe a c = true := by
  rw [slotLe_iff] at *
  rcases hab with hab | ⟨hab, hab'⟩ <;> rcases hbc with hbc | ⟨hbc, hbc'⟩
  · exact .inl (by omega)
  · exact .inl (by omega)
  · exact .inl (by omega)
  · exact .inr ⟨by omega, String.le_trans hab' hbc'⟩

theorem slotLe_total (a b : Nat × String) : (slotLe a b || slotLe b a) = true := by
  rw [Bool.or_eq_true, slotLe_iff, slotLe_iff]
  rcases Nat.lt_trichotomy a.1 b.1 with h | h | h
  · exact .inl (.inl h)
  · rcases String.le_total a.2 b.2 with h' | h'
    · exact .inl (.inr ⟨h, h'⟩)
    · exact .inr (.inr ⟨h.symm, h'⟩)
  · exact .inr (.inl h)

theorem sortBySlot_perm (key : α → Nat × String) (xs : List α) :
    (sortBySlot key xs).Perm xs :=
  List.mergeSort_perm _ _

theorem pairwise_sortBySlot (key : α → Nat × String) (xs : List α) :
    (sortBySlot key xs).Pairwise fun a b => slotLe (key a) (key b) = true :=
  List.pairwise_mergeSort (fun a b c => slotLe_trans (key a) (key b) (key c))
    (fun a b => slotLe_total (key a) (key b)) xs

/-- A list whose slots grow is what sorting any arrangement of it gives. -/
theorem sortBySlot_eq_of_perm {key : α → Nat × String} {xs l : List α} (hperm : xs.Perm l)
    (hslots : l.Pairwise fun a b => (key a).1 < (key b).1) : sortBySlot key xs = l := by
  have hle : l.Pairwise fun a b => slotLe (key a) (key b) = true :=
    hslots.imp fun h => slotLe_iff.2 (.inl h)
  have hinj : ∀ a ∈ l, ∀ b ∈ l, (key a).1 = (key b).1 → a = b := by
    intro a ha b hb heq
    obtain ⟨i, hi, rfl⟩ := List.mem_iff_getElem.1 ha
    obtain ⟨j, hj, rfl⟩ := List.mem_iff_getElem.1 hb
    rw [List.pairwise_iff_getElem] at hslots
    rcases Nat.lt_trichotomy i j with hij | rfl | hij
    · have := hslots i j hi hj hij
      omega
    · rfl
    · have := hslots j i hj hi hij
      omega
  have hsorted := (sortBySlot_perm key xs).trans hperm
  refine hsorted.eq_of_pairwise (fun a b ha hb hab hba => ?_) (pairwise_sortBySlot key xs) hle
  refine hinj a (hsorted.mem_iff.1 ha) b hb ?_
  rw [slotLe_iff] at hab hba
  omega

/-- A list whose slots grow is what sorting the picked values of a map gives, if they are its
elements. -/
theorem sortBySlot_filter_values {name : α → String} {slot : α → Nat} {m : NameMap α} {l : List α}
    {picked : α → Bool} (hkeyed : m.KeyedBy name) (hslots : l.Pairwise fun a b => slot a < slot b)
    (hmem : ∀ a, (∃ n, m.get? n = some a) ∧ picked a = true ↔ a ∈ l) :
    sortBySlot (fun a => (slot a, name a)) (m.values.filter picked) = l := by
  have hnodup : l.Nodup := by
    refine hslots.imp fun {a b} hlt heq => ?_
    rw [heq] at hlt
    exact Nat.lt_irrefl _ hlt
  refine sortBySlot_eq_of_perm ?_ hslots
  refine (List.perm_ext_iff_of_nodup ((NameMap.nodup_values hkeyed).filter _) hnodup).2 fun a => ?_
  rw [List.mem_filter, NameMap.mem_values_iff]
  exact hmem a

/-! ## The two views -/

/-- The entries of `m` are the elements of `l`, under their names and with their places as slots. -/
structure Listing (name : α → String) (slot : α → Nat) (m : NameMap α) (l : List α) : Prop where
  get?_iff : ∀ n a, m.get? n = some a ↔ a ∈ l ∧ name a = n
  nodup : (l.map name).Nodup
  slots : ∀ i a, l[i]? = some a → slot a = i

namespace Listing

variable {name : α → String} {slot : α → Nat} {m : NameMap α} {l : List α}

theorem name_eq (h : Listing name slot m l) {n : String} {a : α} (hget : m.get? n = some a) :
    name a = n :=
  ((h.get?_iff n a).1 hget).2

theorem mem_iff (h : Listing name slot m l) {a : α} : a ∈ l ↔ m.get? (name a) = some a := by
  rw [h.get?_iff]
  exact ⟨fun ha => ⟨ha, rfl⟩, And.left⟩

theorem contains_iff (h : Listing name slot m l) {n : String} :
    m.contains n = true ↔ n ∈ l.map name := by
  rw [NameMap.contains_iff, List.mem_map]
  exact exists_congr fun a => h.get?_iff n a

theorem get?_eq_none_iff (h : Listing name slot m l) {n : String} :
    m.get? n = none ↔ n ∉ l.map name := by
  rw [← NameMap.contains_eq_false_iff, ← h.contains_iff, Bool.not_eq_true]

/-- Elements of one name are equal. -/
theorem eq_of_name_eq (h : Listing name slot m l) {a b : α} (ha : a ∈ l) (hb : b ∈ l)
    (heq : name a = name b) : a = b := by
  have hget := h.mem_iff.1 ha
  rw [heq, h.mem_iff.1 hb] at hget
  exact (Option.some.inj hget).symm

theorem pairwise_slot (h : Listing name slot m l) : l.Pairwise fun a b => slot a < slot b := by
  rw [List.pairwise_iff_getElem]
  intro i j hi hj hij
  have hslotI := h.slots i l[i] (List.getElem?_eq_getElem hi)
  have hslotJ := h.slots j l[j] (List.getElem?_eq_getElem hj)
  omega

theorem nodup_list (h : Listing name slot m l) : l.Nodup :=
  List.Nodup.of_map name h.nodup

theorem perm (h : Listing name slot m l) : m.values.Perm l := by
  have hvalues : m.values.Nodup := NameMap.nodup_values fun n a hget => h.name_eq hget
  refine (List.perm_ext_iff_of_nodup hvalues h.nodup_list).2 fun a => ?_
  rw [NameMap.mem_values_iff, h.mem_iff]
  constructor
  · rintro ⟨n, hget⟩
    rwa [h.name_eq hget]
  · exact fun hget => ⟨_, hget⟩

/-- The listing of a map is its values in slot order. -/
theorem sort_eq (h : Listing name slot m l) :
    sortBySlot (fun a => (slot a, name a)) m.values = l :=
  sortBySlot_eq_of_perm h.perm h.pairwise_slot

theorem size_eq (h : Listing name slot m l) : m.size = l.length := by
  rw [← NameMap.length_values]
  exact h.perm.length_eq

theorem map_unique {m' : NameMap α} (h : Listing name slot m l) (h' : Listing name slot m' l) :
    m = m' := by
  refine NameMap.ext_get? fun n => Option.ext fun a => ?_
  rw [h.get?_iff, h'.get?_iff]

theorem isEmpty_iff (h : Listing name slot m l) : m.isEmpty = true ↔ l = [] := by
  rw [← List.length_eq_zero_iff, ← h.size_eq, NameMap.isEmpty, NameMap.size, List.isEmpty_iff,
    List.length_eq_zero_iff]

/-- Looking a name up in the list is looking it up in the map. -/
theorem find?_eq (h : Listing name slot m l) (n : String) :
    l.find? (fun a => name a == n) = m.get? n := by
  cases hfind : l.find? (fun a => name a == n) with
  | none =>
    rw [List.find?_eq_none] at hfind
    refine (h.get?_eq_none_iff.2 fun hmem => ?_).symm
    obtain ⟨a, ha, hn⟩ := List.mem_map.1 hmem
    exact hfind a ha (beq_iff_eq.2 hn)
  | some a =>
    have hname : name a = n := by simpa using List.find?_some hfind
    exact ((h.get?_iff n a).2 ⟨List.mem_of_find?_eq_some hfind, hname⟩).symm

/-- A map that holds the elements of a numbered list under their names, and nothing else. -/
theorem of_get? (hnodup : (l.map name).Nodup) (hslots : ∀ i a, l[i]? = some a → slot a = i)
    (hmem : ∀ a ∈ l, m.get? (name a) = some a) (hnone : ∀ n, n ∉ l.map name → m.get? n = none) :
    Listing name slot m l where
  get?_iff n a := by
    constructor
    · intro hget
      by_cases hn : n ∈ l.map name
      · obtain ⟨b, hb, rfl⟩ := List.mem_map.1 hn
        rw [hmem b hb] at hget
        cases hget
        exact ⟨hb, rfl⟩
      · rw [hnone n hn] at hget
        cases hget
    · rintro ⟨ha, rfl⟩
      exact hmem a ha
  nodup := hnodup
  slots := hslots

/-- Every numbered list of distinct names is that of some map. -/
theorem exists_map (hnodup : (l.map name).Nodup) (hslots : ∀ i a, l[i]? = some a → slot a = i) :
    ∃ m : NameMap α, Listing name slot m l :=
  ⟨l.foldl (fun m a => m.insert (name a) a) .empty, .of_get? hnodup hslots
    (fun _ ha => NameMap.get?_foldl_insert_of_mem name id hnodup ha _)
    fun n hn => (NameMap.get?_foldl_insert_of_not_mem name id hn _).trans (NameMap.get?_empty n)⟩

/-! ## Changes -/

theorem empty : Listing name slot (.empty : NameMap α) [] where
  get?_iff n a := by simp
  nodup := by simp
  slots i a h := by simp at h

/-- A new member goes to the end. -/
theorem push (h : Listing name slot m l) {a : α} (hnew : m.get? (name a) = none)
    (hslot : slot a = l.length) : Listing name slot (m.insert (name a) a) (l ++ [a]) where
  get?_iff n b := by
    rw [NameMap.get?_insert, List.mem_append, List.mem_singleton]
    by_cases hn : n = name a
    · have hout : ∀ b ∈ l, name b ≠ n := by
        intro b hb hbn
        have hget := h.mem_iff.1 hb
        rw [hbn, hn, hnew] at hget
        cases hget
      rw [if_pos hn, Option.some.injEq]
      constructor
      · rintro rfl
        exact ⟨.inr rfl, hn.symm⟩
      · rintro ⟨hb | rfl, hbn⟩
        · exact absurd hbn (hout b hb)
        · rfl
    · rw [if_neg hn, h.get?_iff]
      constructor
      · exact fun ⟨hb, hbn⟩ => ⟨.inl hb, hbn⟩
      · rintro ⟨hb | rfl, hbn⟩
        · exact ⟨hb, hbn⟩
        · exact absurd hbn.symm hn
  nodup := by
    rw [List.map_append, List.map_singleton, ← List.concat_eq_append]
    exact List.Nodup.concat (h.get?_eq_none_iff.1 hnew) h.nodup
  slots i b hb := by
    rw [List.getElem?_append] at hb
    split at hb
    · exact h.slots i b hb
    · next hi =>
      rw [List.getElem?_singleton] at hb
      split at hb
      · cases hb
        omega
      · cases hb

/-- What a member and its substitute agree in does not change. -/
theorem map_replace {β : Type} (h : Listing name slot m l) {a b : α} (ha : a ∈ l) {g : α → β}
    (hg : g b = g a) : (l.map fun c => if name c = name a then b else c).map g = l.map g := by
  rw [List.map_map]
  refine List.map_congr_left fun c hc => ?_
  by_cases hca : name c = name a
  · rw [Function.comp_apply, if_pos hca, hg, h.eq_of_name_eq hc ha hca]
  · rw [Function.comp_apply, if_neg hca]

/-- A member is replaced by another one of its name and slot. -/
theorem replace (h : Listing name slot m l) {a b : α} (ha : a ∈ l) (hname : name b = name a)
    (hslot : slot b = slot a) :
    Listing name slot (m.insert (name a) b) (l.map fun c => if name c = name a then b else c) := by
  have hmem : ∀ c, c ∈ (l.map fun c => if name c = name a then b else c) ↔
      c = b ∨ c ∈ l ∧ name c ≠ name a := by
    intro c
    rw [List.mem_map]
    constructor
    · rintro ⟨d, hd, rfl⟩
      by_cases hda : name d = name a
      · exact .inl (if_pos hda)
      · rw [if_neg hda]
        exact .inr ⟨hd, hda⟩
    · rintro (rfl | ⟨hc, hne⟩)
      · exact ⟨a, ha, if_pos rfl⟩
      · exact ⟨c, hc, if_neg hne⟩
  refine ⟨fun n c => ?_, (h.map_replace ha hname).symm ▸ h.nodup, fun i c hc => ?_⟩
  · rw [NameMap.get?_insert, hmem]
    by_cases hn : n = name a
    · rw [if_pos hn, Option.some.injEq]
      constructor
      · rintro rfl
        exact ⟨.inl rfl, hname.trans hn.symm⟩
      · rintro ⟨rfl | ⟨_, hne⟩, hcn⟩
        · rfl
        · exact absurd (hcn.trans hn) hne
    · rw [if_neg hn, h.get?_iff]
      constructor
      · rintro ⟨hc, rfl⟩
        exact ⟨.inr ⟨hc, hn⟩, rfl⟩
      · rintro ⟨rfl | ⟨hc, _⟩, rfl⟩
        · exact absurd hname hn
        · exact ⟨hc, rfl⟩
  · have hslots := congrArg (·[i]?) (h.map_replace ha hslot)
    simp only [List.getElem?_map, hc, Option.map_some] at hslots
    obtain ⟨d, hd, hcd⟩ := Option.map_eq_some_iff.1 hslots.symm
    rw [← hcd]
    exact h.slots i d hd

end Listing

/-- The methods of a map in slot order. -/
abbrev MethodListing := Listing Method.name Method.slot

/-- The attributes of a map in slot order. -/
abbrev AttrListing := Listing Attr.name Attr.slot

end StructLang
