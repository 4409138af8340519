import Mathlib.Data.List.Nodup
import Mathlib.Data.List.Perm.Subperm
import StructLang.NameMap

/-!
# Maps from names: entries, sizes and updates

`NameMap.get?` is the view of a map.  The lemmas below read the listings of a map (`names`,
`values`, `size`, `first?`) off that view, and say how updates at one name combine.  Values that are
stored under their own keys (`KeyedBy`) can be searched for in the listing.  `Forall p` says that all
values of a map have a property, which updates with such values keep.
-/

namespace StructLang.NameMap

variable {α : Type}

/-! ## Listings -/

theorem contains_iff {m : NameMap α} {name : String} :
    m.contains name = true ↔ ∃ a, m.get? name = some a := by
  rw [contains, Option.isSome_iff_exists]

theorem contains_eq_false_iff {m : NameMap α} {name : String} :
    m.contains name = false ↔ m.get? name = none := by
  rw [contains, Option.isSome_eq_false_iff, Option.isNone_iff_eq_none]

theorem mem_values_iff {m : NameMap α} {a : α} :
    a ∈ m.values ↔ ∃ name, m.get? name = some a := by
  simp only [values, List.mem_map, ← mem_entries_iff]
  constructor
  · rintro ⟨⟨name, b⟩, hmem, rfl⟩
    exact ⟨name, hmem⟩
  · rintro ⟨name, hmem⟩
    exact ⟨(name, a), hmem, rfl⟩

theorem mem_names_iff {m : NameMap α} {name : String} :
    name ∈ m.names ↔ m.contains name = true := by
  simp only [names, List.mem_map, contains_iff, ← mem_entries_iff]
  constructor
  · rintro ⟨⟨n, a⟩, hmem, rfl⟩
    exact ⟨a, hmem⟩
  · rintro ⟨a, hmem⟩
    exact ⟨(name, a), hmem, rfl⟩

theorem nodup_names (m : NameMap α) : m.names.Nodup := by
  have hlt : m.names.Pairwise (· < ·) := List.pairwise_map.2 m.sorted
  exact hlt.imp fun {a b} (hab : a < b) (heq : a = b) => String.lt_irrefl b (heq ▸ hab)

theorem length_names (m : NameMap α) : m.names.length = m.size := by
  rw [names, List.length_map, size]

theorem length_values (m : NameMap α) : m.values.length = m.size := by
  rw [values, List.length_map, size]

/-- A list of distinct registered names is no longer than the map. -/
theorem length_le_size {m : NameMap α} {names : List String} (hnodup : names.Nodup)
    (hmem : ∀ name ∈ names, m.contains name = true) : names.length ≤ m.size := by
  rw [← length_names]
  exact (hnodup.subperm fun name h => mem_names_iff.2 (hmem name h)).length_le

/-- Values with distinct keys are distinct: a value that tells its name occurs once. -/
theorem nodup_values {m : NameMap α} {key : α → String}
    (hkey : ∀ name a, m.get? name = some a → key a = name) : m.values.Nodup := by
  have hentries : ∀ e ∈ m.entries, key e.2 = e.1 := fun e he =>
    hkey e.1 e.2 ((mem_entries_iff m e.1 e.2).1 he)
  have hkeys : m.values.map key = m.names := by
    rw [values, names, List.map_map]
    exact List.map_congr_left hentries
  exact List.Nodup.of_map key (hkeys ▸ nodup_names m)

theorem isEmpty_iff {m : NameMap α} : m.isEmpty = true ↔ ∀ name, m.get? name = none := by
  constructor
  · intro h name
    have hnil : m.entries = [] := List.isEmpty_iff.1 h
    rw [get?, hnil, List.lookup_nil]
  · intro h
    rw [isEmpty, List.isEmpty_iff]
    refine List.eq_nil_iff_forall_not_mem.2 fun e he => ?_
    have hget := (mem_entries_iff m e.1 e.2).1 he
    rw [h] at hget
    cases hget

theorem first?_eq_none_iff {m : NameMap α} : m.first? = none ↔ ∀ name, m.get? name = none := by
  rw [first?, List.head?_eq_none_iff, ← List.isEmpty_iff]
  exact isEmpty_iff

@[simp] theorem contains_empty (name : String) : (empty : NameMap α).contains name = false := rfl

@[simp] theorem contains_insert (m : NameMap α) (name : String) (a : α) (other : String) :
    (m.insert name a).contains other = (decide (other = name) || m.contains other) := by
  by_cases h : other = name <;> simp [contains, h]

@[simp] theorem contains_erase (m : NameMap α) (name other : String) :
    (m.erase name).contains other = (decide (other ≠ name) && m.contains other) := by
  by_cases h : other = name <;> simp [contains, h]

@[simp] theorem contains_modify (m : NameMap α) (name : String) (f : α → α) (other : String) :
    (m.modify name f).contains other = m.contains other := by
  by_cases h : other = name <;> simp [contains, h]

@[simp] theorem insert_insert (m : NameMap α) (name : String) (a b : α) :
    (m.insert name a).insert name b = m.insert name b := by
  refine ext_get? fun other => ?_
  by_cases h : other = name <;> simp [h]

theorem insert_eq_self {m : NameMap α} {name : String} {a : α} (h : m.get? name = some a) :
    m.insert name a = m := by
  refine ext_get? fun other => ?_
  by_cases ho : other = name
  · simp [ho, h]
  · simp [ho]

theorem modify_eq_insert {m : NameMap α} {name : String} {a : α} (h : m.get? name = some a)
    (f : α → α) : m.modify name f = m.insert name (f a) := by
  refine ext_get? fun other => ?_
  by_cases ho : other = name <;> simp [ho, h]

/-! ## Values that tell their names -/

/-- Every value is stored under its own key. -/
def KeyedBy (key : α → String) (m : NameMap α) : Prop :=
  ∀ name a, m.get? name = some a → key a = name

namespace KeyedBy

variable {key : α → String} {m : NameMap α}

theorem insert (h : m.KeyedBy key) {name : String} {a : α} (ha : key a = name) :
    (m.insert name a).KeyedBy key := by
  intro other b hb
  rw [get?_insert] at hb
  split at hb
  · next hother =>
    cases hb
    exact ha.trans hother.symm
  · exact h other b hb

theorem modify (h : m.KeyedBy key) (name : String) {f : α → α} (hf : ∀ a, key (f a) = key a) :
    (m.modify name f).KeyedBy key := by
  intro other b hb
  rw [get?_modify] at hb
  split at hb
  · next hother =>
    obtain ⟨a, ha, rfl⟩ := Option.map_eq_some_iff.1 hb
    exact (hf a).trans ((h name a ha).trans hother.symm)
  · exact h other b hb

/-- The values stand in the order of their keys. -/
theorem pairwise_values (h : m.KeyedBy key) : m.values.Pairwise fun a b => key a < key b := by
  have hkey : ∀ e ∈ m.entries, key e.2 = e.1 := fun e he =>
    h e.1 e.2 ((mem_entries_iff m e.1 e.2).1 he)
  refine List.pairwise_map.2 (m.sorted.imp_of_mem fun {a b} ha hb hlt => ?_)
  rw [hkey a ha, hkey b hb]
  exact hlt

/-- A search for a key among the values finds what is stored under it. -/
theorem find?_values (h : m.KeyedBy key) (name : String) :
    m.values.find? (fun a => key a == name) = m.get? name := by
  cases hfind : m.values.find? (fun a => key a == name) with
  | some a =>
    obtain ⟨other, hget⟩ := mem_values_iff.1 (List.mem_of_find?_eq_some hfind)
    have hbeq := List.find?_some hfind
    have hname : key a = name := eq_of_beq hbeq
    rw [← hname, h other a hget, hget]
  | none =>
    cases hget : m.get? name with
    | none => rfl
    | some a =>
      have hne := List.find?_eq_none.1 hfind a (mem_values_iff.2 ⟨name, hget⟩)
      exact absurd (beq_iff_eq.2 (h name a hget)) hne

end KeyedBy

/-! ## Insertions in a row -/

section Foldl

variable {β : Type} (key : β → String) (value : β → α)

theorem get?_foldl_insert_of_not_mem {l : List β} {name : String} (h : name ∉ l.map key)
    (m : NameMap α) :
    (l.foldl (fun m b => m.insert (key b) (value b)) m).get? name = m.get? name := by
  induction l generalizing m with
  | nil => rfl
  | cons b l ih =>
    rw [List.map_cons, List.mem_cons, not_or] at h
    rw [List.foldl_cons, ih h.2, get?_insert, if_neg h.1]

/-- Insertions at distinct names all stay. -/
theorem get?_foldl_insert_of_mem {l : List β} (hnodup : (l.map key).Nodup) {b : β} (hb : b ∈ l)
    (m : NameMap α) :
    (l.foldl (fun m b => m.insert (key b) (value b)) m).get? (key b) = some (value b) := by
  induction l generalizing m with
  | nil => cases hb
  | cons c l ih =>
    rw [List.map_cons, List.nodup_cons] at hnodup
    rw [List.foldl_cons]
    rcases List.mem_cons.1 hb with rfl | hb
    · rw [get?_foldl_insert_of_not_mem key value hnodup.1, get?_insert, if_pos rfl]
    · exact ih hnodup.2 hb _

/-- Insertions of what is there already change nothing. -/
theorem foldl_insert_eq_self {m : NameMap α} {l : List β}
    (h : ∀ b ∈ l, m.get? (key b) = some (value b)) :
    l.foldl (fun m b => m.insert (key b) (value b)) m = m := by
  induction l with
  | nil => rfl
  | cons b l ih =>
    obtain ⟨hb, hl⟩ := List.forall_mem_cons.1 h
    rw [List.foldl_cons, insert_eq_self hb]
    exact ih hl

/-- Insertions at distinct names may come in any order. -/
theorem foldl_insert_perm {l l' : List β} (hperm : l'.Perm l) (hnodup : (l.map key).Nodup)
    (m : NameMap α) :
    l'.foldl (fun m b => m.insert (key b) (value b)) m =
      l.foldl (fun m b => m.insert (key b) (value b)) m := by
  have hkeys := hperm.map key
  refine ext_get? fun name => ?_
  by_cases hname : name ∈ l.map key
  · obtain ⟨b, hb, rfl⟩ := List.mem_map.1 hname
    rw [get?_foldl_insert_of_mem key value hnodup hb,
      get?_foldl_insert_of_mem key value (hkeys.nodup_iff.2 hnodup) (hperm.mem_iff.2 hb)]
  · rw [get?_foldl_insert_of_not_mem key value hname,
      get?_foldl_insert_of_not_mem key value fun hmem => hname (hkeys.mem_iff.1 hmem)]

end Foldl

/-! ## Properties of all values -/

section Forall

variable {β : Type} {p : α → Prop} {m : NameMap α}

/-- Every value of the map has a property. -/
def Forall (p : α → Prop) (m : NameMap α) : Prop := ∀ name a, m.get? name = some a → p a

theorem Forall.insert (h : m.Forall p) {a : α} (ha : p a) (name : String) :
    (m.insert name a).Forall p := by
  intro other b hb
  rw [get?_insert] at hb
  split at hb
  · cases hb
    exact ha
  · exact h other b hb

theorem Forall.modify (h : m.Forall p) {name : String} {f : α → α}
    (hf : ∀ a, m.get? name = some a → p a → p (f a)) : (m.modify name f).Forall p := by
  intro other b hb
  rw [get?_modify] at hb
  split at hb
  · obtain ⟨a, ha, rfl⟩ := Option.map_eq_some_iff.1 hb
    exact hf a ha (h name a ha)
  · exact h other b hb

theorem Forall.erase (h : m.Forall p) (name : String) : (m.erase name).Forall p := by
  intro other b hb
  rw [get?_erase] at hb
  split at hb
  · cases hb
  · exact h other b hb

theorem Forall.foldl_insert (h : m.Forall p) {l : List β} (key : β → String) (value : β → α)
    (hl : ∀ b ∈ l, p (value b)) :
    (l.foldl (fun m b => m.insert (key b) (value b)) m).Forall p := by
  induction l generalizing m with
  | nil => exact h
  | cons b l ih =>
    obtain ⟨hb, hl⟩ := List.forall_mem_cons.1 hl
    exact ih (h.insert hb (key b)) hl

theorem Forall.of_mem_values (h : m.Forall p) {a : α} (ha : a ∈ m.values) : p a := by
  obtain ⟨name, hget⟩ := mem_values_iff.1 ha
  exact h name a hget

theorem Forall.of_first? (h : m.Forall p) {name : String} {a : α}
    (ha : m.first? = some (name, a)) : p a :=
  h name a ((mem_entries_iff _ _ _).1 (List.mem_of_head? ha))

/-- The list is not empty, and its first element has a property. -/
def FirstIs (p : α → Prop) (l : List α) : Prop := ∃ a, l.head? = some a ∧ p a

/-- One more element under a name, at the end of the list there, leaves the first one in place. -/
theorem Forall.push {m : NameMap (List α)} (h : m.Forall (FirstIs p)) {a : α} (ha : p a)
    (name : String) : (m.insert name ((m.get? name).getD [] ++ [a])).Forall (FirstIs p) := by
  apply h.insert
  cases hget : m.get? name with
  | none => exact ⟨a, rfl, ha⟩
  | some l =>
    obtain ⟨b, hb, hpb⟩ := h name l hget
    refine ⟨b, ?_, hpb⟩
    rw [Option.getD_some, List.head?_append, hb, Option.some_or]

end Forall

end StructLang.NameMap

/-! ## Sets of names -/

namespace StructLang.NameSet

@[simp] theorem contains_insert (s : NameSet) (name other : String) :
    (s.insert name).contains other = (decide (other = name) || s.contains other) :=
  NameMap.contains_insert s name () other

/-- Sets with the same elements are equal. -/
theorem ext_contains {s r : NameSet} (h : ∀ name, s.contains name = r.contains name) : s = r := by
  refine NameMap.ext_get? fun name => ?_
  have hname := h name
  rw [NameMap.contains, NameMap.contains] at hname
  cases hs : s.get? name <;> cases hr : r.get? name <;> simp_all

theorem insertAll_append (s : NameSet) (l r : List String) :
    s.insertAll (l ++ r) = (s.insertAll l).insertAll r :=
  List.foldl_append

@[simp] theorem contains_insertAll (s : NameSet) (l : List String) (name : String) :
    (s.insertAll l).contains name = (decide (name ∈ l) || s.contains name) := by
  induction l generalizing s with
  | nil => simp [insertAll]
  | cons n l ih =>
    rw [insertAll, List.foldl_cons, ← insertAll, ih, contains_insert]
    simp only [List.mem_cons, Bool.decide_or, Bool.or_left_comm, Bool.or_assoc]

/-- Lists of the same names make the same set. -/
theorem ofList_eq_of_mem_iff {l r : List String} (h : ∀ name, name ∈ l ↔ name ∈ r) :
    ofList l = ofList r := by
  refine ext_contains fun name => ?_
  simp only [ofList, contains_insertAll, h]

theorem contains_ofList (l : List String) (name : String) :
    (ofList l).contains name = decide (name ∈ l) := by
  rw [ofList, contains_insertAll]
  simp

/-- Collecting names in a set first makes no difference. -/
theorem insertAll_names_insertAll (s : NameSet) (l : List String) :
    s.insertAll (insertAll .empty l).names = s.insertAll l := by
  refine ext_contains fun name => ?_
  have hname : name ∈ (insertAll .empty l).names ↔ name ∈ l := by
    rw [NameMap.mem_names_iff, contains_insertAll]
    simp
  simp only [contains_insertAll, hname]

theorem insert_insertAll (s : NameSet) (l : List String) (name : String) :
    (s.insertAll l).insert name = s.insertAll (name :: l) := by
  refine ext_contains fun other => ?_
  simp [Bool.or_assoc]

end StructLang.NameSet
