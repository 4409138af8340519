/-!
# Maps from names

A finite map whose keys are names, kept in the order of the names.  Two maps that answer every
look-up alike are equal (`NameMap.ext_get?`), so how a map was built leaves no trace in it, and its
entries are always listed in the order of the names.

`get?` is the view of a map: every operation is described by what it does to `get?`.
-/

namespace StructLang

/-- A finite map from names to values. -/
structure NameMap (α : Type) where
  entries : List (String × α)
  sorted : entries.Pairwise fun a b => a.1 < b.1

namespace NameMap

variable {α : Type}

/-- The map without entries. -/
def empty : NameMap α := ⟨[], .nil⟩

instance : Inhabited (NameMap α) := ⟨empty⟩

/-- The value of a name. -/
def get? (m : NameMap α) (name : String) : Option α := m.entries.lookup name

/-- Whether a name has a value. -/
def contains (m : NameMap α) (name : String) : Bool := (m.get? name).isSome

/-- The names with a value, in their order. -/
def names (m : NameMap α) : List String := m.entries.map (·.1)

/-- The values, in the order of their names. -/
def values (m : NameMap α) : List α := m.entries.map (·.2)

/-- The number of entries. -/
def size (m : NameMap α) : Nat := m.entries.length

/-- Whether there is no entry. -/
def isEmpty (m : NameMap α) : Bool := m.entries.isEmpty

/-- The entry with the least name. -/
def first? (m : NameMap α) : Option (String × α) := m.entries.head?

/-! ## Insertion -/

/-- A sorted list of entries with one entry put in its place, or replaced. -/
def insertEntry (name : String) (a : α) : List (String × α) → List (String × α)
  | [] => [(name, a)]
  | entry :: rest =>
    if name < entry.1 then (name, a) :: entry :: rest
    else if name = entry.1 then (name, a) :: rest
    else entry :: insertEntry name a rest

theorem mem_insertEntry {name : String} {a : α} {l : List (String × α)} {e : String × α}
    (h : e ∈ insertEntry name a l) : e = (name, a) ∨ e ∈ l := by
  induction l with
  | nil => simpa [insertEntry] using h
  | cons entry rest ih =>
    rw [insertEntry] at h
    split at h
    · simpa using h
    · split at h
      · rcases List.mem_cons.1 h with h | h
        · exact .inl h
        · exact .inr (List.mem_cons_of_mem _ h)
      · rcases List.mem_cons.1 h with h | h
        · exact .inr (h ▸ List.mem_cons_self)
        · exact (ih h).imp_right (List.mem_cons_of_mem _)

theorem sorted_insertEntry (name : String) (a : α) {l : List (String × α)}
    (h : l.Pairwise fun a b => a.1 < b.1) :
    (insertEntry name a l).Pairwise fun a b => a.1 < b.1 := by
  induction l with
  | nil => simp [insertEntry]
  | cons entry rest ih =>
    obtain ⟨hhead, hrest⟩ := List.pairwise_cons.1 h
    rw [insertEntry]
    split
    · next hlt =>
      refine List.pairwise_cons.2 ⟨fun e he => ?_, h⟩
      rcases List.mem_cons.1 he with rfl | he
      · exact hlt
      · exact String.lt_trans hlt (hhead e he)
    · next hnlt =>
      split
      · next heq => exact List.pairwise_cons.2 ⟨fun e he => heq ▸ hhead e he, hrest⟩
      · next hne =>
        refine List.pairwise_cons.2 ⟨fun e he => ?_, ih hrest⟩
        rcases mem_insertEntry he with rfl | he
        · exact Std.lt_of_le_of_ne (String.not_lt.1 hnlt) (Ne.symm hne)
        · exact hhead e he

/-- The map with a value for a name, which replaces an earlier one. -/
def insert (m : NameMap α) (name : String) (a : α) : NameMap α :=
  ⟨insertEntry name a m.entries, sorted_insertEntry name a m.sorted⟩

/-- The map without a name. -/
def erase (m : NameMap α) (name : String) : NameMap α :=
  ⟨m.entries.filter (·.1 != name), m.sorted.filter _⟩

/-- The map with the value of a name changed, if it has one. -/
def modify (m : NameMap α) (name : String) (f : α → α) : NameMap α where
  entries := m.entries.map fun e => if e.1 = name then (e.1, f e.2) else e
  sorted := List.pairwise_map.2 (m.sorted.imp fun {a b} h => by
    have key (e : String × α) : (if e.1 = name then (e.1, f e.2) else e).1 = e.1 := by split <;> rfl
    simpa only [key] using h)

/-- The map with the given entries; of two entries with one name the later one counts. -/
def ofList (entries : List (String × α)) : NameMap α :=
  entries.foldl (fun m e => m.insert e.1 e.2) empty

/-! ## The view -/

theorem lookup_cons_eq (name : String) (e : String × α) (l : List (String × α)) :
    (e :: l).lookup name = if name = e.1 then some e.2 else l.lookup name := by
  rw [List.lookup_cons]
  by_cases h : name = e.1
  · simp [h]
  · simp [h, beq_eq_false_iff_ne.2 h]

theorem lookup_insertEntry (name : String) (a : α) (l : List (String × α)) (other : String) :
    (insertEntry name a l).lookup other = if other = name then some a else l.lookup other := by
  induction l with
  | nil => simp [insertEntry, lookup_cons_eq]
  | cons entry rest ih =>
    rw [insertEntry]
    split
    · simp only [lookup_cons_eq]
    · split
      · next heq =>
        simp only [lookup_cons_eq, ← heq]
        split <;> rfl
      · next hne =>
        simp only [lookup_cons_eq, ih]
        by_cases h : other = entry.1
        · have hname : other ≠ name := fun h' => hne (h'.symm.trans h)
          simp only [if_pos h, if_neg hname]
        · simp only [if_neg h]

theorem lookup_filter_ne (name other : String) (l : List (String × α)) :
    (l.filter (·.1 != name)).lookup other = if other = name then none else l.lookup other := by
  induction l with
  | nil => simp
  | cons e rest ih =>
    by_cases he : e.1 = name
    · simp only [List.filter_cons, he, bne_self_eq_false, Bool.false_eq_true, if_false, ih,
        lookup_cons_eq]
      split <;> rfl
    · have hkeep : (e.1 != name) = true := by simpa using he
      simp only [List.filter_cons, hkeep, if_true, lookup_cons_eq, ih]
      by_cases ho : other = e.1
      · have hname : other ≠ name := fun h => he (ho.symm.trans h)
        simp only [if_pos ho, if_neg hname]
      · simp only [if_neg ho]

theorem lookup_map_modify (name : String) (f : α → α) (other : String) (l : List (String × α)) :
    (l.map fun e => if e.1 = name then (e.1, f e.2) else e).lookup other =
      if other = name then (l.lookup name).map f else l.lookup other := by
  induction l with
  | nil => simp
  | cons e rest ih =>
    simp only [List.map_cons, lookup_cons_eq, ih]
    by_cases he : e.1 = name
    · subst he
      by_cases ho : other = e.1 <;> simp [ho]
    · simp only [if_neg he, if_neg (Ne.symm he)]
      by_cases ho : other = e.1
      · have hname : other ≠ name := fun h => he (ho.symm.trans h)
        simp only [if_pos ho, if_neg hname]
      · simp only [if_neg ho]

@[simp] theorem get?_empty (name : String) : (empty : NameMap α).get? name = none := rfl

@[simp] theorem get?_insert (m : NameMap α) (name : String) (a : α) (other : String) :
    (m.insert name a).get? other = if other = name then some a else m.get? other :=
  lookup_insertEntry name a m.entries other

@[simp] theorem get?_erase (m : NameMap α) (name other : String) :
    (m.erase name).get? other = if other = name then none else m.get? other :=
  lookup_filter_ne name other m.entries

@[simp] theorem get?_modify (m : NameMap α) (name : String) (f : α → α) (other : String) :
    (m.modify name f).get? other = if other = name then (m.get? name).map f else m.get? other :=
  lookup_map_modify name f other m.entries

theorem mem_entries_iff (m : NameMap α) (name : String) (a : α) :
    (name, a) ∈ m.entries ↔ m.get? name = some a := by
  obtain ⟨l, hl⟩ := m
  show (name, a) ∈ l ↔ l.lookup name = some a
  induction l with
  | nil => simp
  | cons e rest ih =>
    obtain ⟨hhead, hrest⟩ := List.pairwise_cons.1 hl
    rw [List.mem_cons, lookup_cons_eq, ih hrest]
    by_cases h : name = e.1
    · subst h
      have hnot : rest.lookup e.1 ≠ some a := fun hlk =>
        String.lt_irrefl _ (hhead (e.1, a) ((ih hrest).2 hlk))
      simp only [if_true, Option.some.injEq, hnot, or_false]
      exact ⟨fun h => (congrArg Prod.snd h).symm, fun h => Prod.ext rfl h.symm⟩
    · simp only [if_neg h]
      exact ⟨fun h' => h'.resolve_left fun h' => h (congrArg Prod.fst h'), .inr⟩

/-- A map is determined by what it answers. -/
theorem ext_get? {m n : NameMap α} (h : ∀ name, m.get? name = n.get? name) : m = n := by
  have hperm : m.entries.Perm n.entries := by
    have nodup (m : NameMap α) : m.entries.Nodup :=
      m.sorted.imp fun {a b} (hlt : a.1 < b.1) (heq : a = b) => String.lt_irrefl b.1 (heq ▸ hlt)
    refine (List.perm_ext_iff_of_nodup (nodup m) (nodup n)).2 fun ⟨name, a⟩ => ?_
    rw [mem_entries_iff, mem_entries_iff, h]
  obtain ⟨l, hl⟩ := m
  obtain ⟨k, hk⟩ := n
  have : l = k := hperm.eq_of_pairwise
    (fun a b _ _ hab hba => absurd (String.lt_trans hab hba) (String.lt_irrefl _)) hl hk
  subst this
  rfl

end NameMap

/-! ## Sets of names -/

/-- A finite set of names. -/
abbrev NameSet := NameMap Unit

namespace NameSet

/-- The set with one more name. -/
def insert (s : NameSet) (name : String) : NameSet := NameMap.insert s name ()

/-- The set with all of the given names as well. -/
def insertAll (s : NameSet) (names : List String) : NameSet := names.foldl insert s

/-- The set of the given names. -/
def ofList (names : List String) : NameSet := insertAll NameMap.empty names

end NameSet

end StructLang
