import StructLang.Proofs.ItemRun

/-!
# Lists of items

What a list of items declares, without the table.

* `structDefs`, `implDefs` and `startDefs` are the items of each kind, and `structDef?` and
  `implDef?` those of a name.
* `Inherits` is the relation of a struct to the parent that its struct item names, declared or not.
* `Declarable` says when all items of a list can be declared.  It is a condition on the list as a
  whole; `declarable_struct`, `declarable_impl` and `declarable_start` say what one more item needs.
* `acceptsAll_attributes` and `acceptsAll_methods` say when the members of one item are accepted.
-/

namespace StructLang

/-! ## The parts of an item -/

/-- The struct item that an item is. -/
@[simp] def Item.structDef? : Item → Option StructDef
  | struct d => some d
  | _ => none

/-- The impl block that an item is. -/
@[simp] def Item.implDef? : Item → Option ImplDef
  | impl d => some d
  | _ => none

/-- The start item that an item is. -/
@[simp] def Item.startDef? : Item → Option StartDef
  | start d => some d
  | _ => none

/-- The type tokens of an item. -/
def Item.types : Item → List Token
  | struct d => d.attributes.map AttrDef.ty
  | impl d => d.methods.flatMap MethodDef.types
  | start d => d.locals.map VarDef.ty

namespace ImplDef

/-- The methods of an impl block that are no constructors. -/
def ordinary (d : ImplDef) : List MethodDef := d.methods.filter (·.kind ≠ .constructor)

/-- The constructors of an impl block. -/
def constructors (d : ImplDef) : List MethodDef := d.methods.filter (·.kind = .constructor)

end ImplDef

/-! ## Lists of items -/

namespace Items

/-- The struct items of a list. -/
def structDefs (items : List Item) : List StructDef := items.filterMap Item.structDef?

/-- The impl blocks of a list. -/
def implDefs (items : List Item) : List ImplDef := items.filterMap Item.implDef?

/-- The start items of a list. -/
def startDefs (items : List Item) : List StartDef := items.filterMap Item.startDef?

/-- The first struct item of a name. -/
def structDef? (items : List Item) (n : String) : Option StructDef :=
  (structDefs items).find? (·.name.lexeme == n)

/-- The first impl block of a name. -/
def implDef? (items : List Item) (n : String) : Option ImplDef :=
  (implDefs items).find? (·.name.lexeme == n)

/-- Whether a list has a struct item or an impl block of a name. -/
def Names (items : List Item) (n : String) : Prop :=
  n ∈ (structDefs items).map (·.name.lexeme) ∨ n ∈ (implDefs items).map (·.name.lexeme)

/-- Whether some type of a list of items is the struct of a name. -/
def Mentions (items : List Item) (n : String) : Prop :=
  ∃ item ∈ items, ∃ token ∈ item.types, Ty.ofName token.lexeme = .struct n

/-- Whether a struct item of a list names a parent. -/
def Inherits (items : List Item) (c p : String) : Prop :=
  ∃ d ∈ structDefs items, d.name.lexeme = c ∧ d.parent.map (·.lexeme) = some p

/-- The token of the parent of a struct. -/
def parent? (items : List Item) (n : String) : Option Token :=
  (structDef? items n).bind (·.parent)

variable {items : List Item} {n : String}

theorem mem_filterMap_iff {β : Type} {view : Item → Option β} {wrap : β → Item}
    (h : ∀ item b, view item = some b ↔ item = wrap b) {b : β} :
    b ∈ items.filterMap view ↔ wrap b ∈ items := by
  simp [h]

theorem mem_structDefs {d : StructDef} : d ∈ structDefs items ↔ .struct d ∈ items :=
  mem_filterMap_iff fun item d => by cases item <;> simp

theorem mem_implDefs {d : ImplDef} : d ∈ implDefs items ↔ .impl d ∈ items :=
  mem_filterMap_iff fun item d => by cases item <;> simp

theorem mem_startDefs {d : StartDef} : d ∈ startDefs items ↔ .start d ∈ items :=
  mem_filterMap_iff fun item d => by cases item <;> simp

theorem structDef?_eq_none_iff :
    structDef? items n = none ↔ n ∉ (structDefs items).map (·.name.lexeme) := by
  rw [structDef?, List.find?_eq_none]
  simp

theorem implDef?_eq_none_iff :
    implDef? items n = none ↔ n ∉ (implDefs items).map (·.name.lexeme) := by
  rw [implDef?, List.find?_eq_none]
  simp

theorem not_names_iff : ¬ Names items n ↔ structDef? items n = none ∧ implDef? items n = none := by
  rw [structDef?_eq_none_iff, implDef?_eq_none_iff, Names, not_or]

/-! ## One more item -/

section Append

variable (items)

@[simp] theorem structDefs_append (item : Item) :
    structDefs (items ++ [item]) = structDefs items ++ item.structDef?.toList := by
  rw [structDefs, List.filterMap_append]
  cases item <;> rfl

@[simp] theorem implDefs_append (item : Item) :
    implDefs (items ++ [item]) = implDefs items ++ item.implDef?.toList := by
  rw [implDefs, List.filterMap_append]
  cases item <;> rfl

@[simp] theorem startDefs_append (item : Item) :
    startDefs (items ++ [item]) = startDefs items ++ item.startDef?.toList := by
  rw [startDefs, List.filterMap_append]
  cases item <;> rfl

theorem find?_toList {β : Type} (o : Option β) (test : β → Bool) :
    o.toList.find? test = o.filter test := by
  cases o with
  | none => rfl
  | some b => simp [Option.filter_some, List.find?_singleton]

@[simp] theorem structDef?_append (item : Item) (n : String) : structDef? (items ++ [item]) n =
    (structDef? items n).or (item.structDef?.filter (·.name.lexeme == n)) := by
  rw [structDef?, structDefs_append, List.find?_append, find?_toList, structDef?]

@[simp] theorem implDef?_append (item : Item) (n : String) : implDef? (items ++ [item]) n =
    (implDef? items n).or (item.implDef?.filter (·.name.lexeme == n)) := by
  rw [implDef?, implDefs_append, List.find?_append, find?_toList, implDef?]

theorem mentions_append (item : Item) (n : String) :
    Mentions (items ++ [item]) n ↔
      Mentions items n ∨ ∃ token ∈ item.types, Ty.ofName token.lexeme = .struct n := by
  simp [Mentions, or_and_right, exists_or]

end Append

end Items

/-! ## Items that can be declared -/

/-- What a struct item needs on its own. -/
structure StructDef.Admissible (d : StructDef) : Prop where
  name : Builtin.isReserved d.name.lexeme = false
  parent : ∀ p, d.parent = some p → Builtin.isSealed p.lexeme = false ∧ p.lexeme ≠ d.name.lexeme
  attributes : (d.attributes.map (·.name.lexeme)).Nodup

/-- What an impl block needs on its own. -/
structure ImplDef.Admissible (d : ImplDef) : Prop where
  name : Builtin.isReserved d.name.lexeme = false
  methods : ∀ m ∈ d.methods, m.kind ≠ .start ∧ m.Distinct
  constructors : d.constructors.length ≤ 1
  names : (d.ordinary.map (·.name.lexeme)).Nodup

/-- What an item needs on its own. -/
def Item.Admissible : Item → Prop
  | struct d => d.Admissible
  | impl d => d.Admissible
  | start d => (d.locals.map (·.name.lexeme)).Nodup

namespace Items

variable {items : List Item} {n : String}

/-- What a list of items needs, so that one after the other can be declared. -/
structure Declarable (items : List Item) : Prop where
  each : ∀ item ∈ items, item.Admissible
  structNames : ((structDefs items).map (·.name.lexeme)).Nodup
  implNames : ((implDefs items).map (·.name.lexeme)).Nodup
  starts : (startDefs items).length ≤ 1
  acyclic : ∀ n, ¬ Relation.TransGen (Inherits items) n n

theorem Declarable.admissible_struct (h : Declarable items) {d : StructDef}
    (hd : structDef? items n = some d) : d.Admissible :=
  h.each (.struct d) (mem_structDefs.1 (List.mem_of_find?_eq_some hd))

theorem Declarable.admissible_impl (h : Declarable items) {d : ImplDef}
    (hd : implDef? items n = some d) : d.Admissible :=
  h.each (.impl d) (mem_implDefs.1 (List.mem_of_find?_eq_some hd))

theorem declarable_nil : Declarable [] where
  each item hitem := by cases hitem
  structNames := by simp [structDefs]
  implNames := by simp [implDefs]
  starts := by simp [startDefs]
  acyclic n hcycle := by
    obtain ⟨_, ⟨d, hd, _⟩, _⟩ := Relation.TransGen.head'_iff.1 hcycle
    cases hd

theorem inherits_append_of_structDef? {item : Item} (h : item.structDef? = none) :
    Inherits (items ++ [item]) = Inherits items := by
  funext c p
  simp only [Inherits, structDefs_append, h, Option.toList_none, List.append_nil]

theorem inherits_le_append (more : List Item) : Inherits items ≤ Inherits (items ++ more) := by
  rintro c p ⟨d, hd, hc, hp⟩
  rw [mem_structDefs] at hd
  exact ⟨d, mem_structDefs.2 (List.mem_append_left _ hd), hc, hp⟩

/-- The first items of a list that can be declared can be declared. -/
theorem Declarable.of_append {more : List Item} (h : Declarable (items ++ more)) :
    Declarable items where
  each item hitem := h.each item (List.mem_append_left _ hitem)
  structNames := by
    have hnames := h.structNames
    rw [structDefs, List.filterMap_append, List.map_append] at hnames
    exact hnames.of_append_left
  implNames := by
    have hnames := h.implNames
    rw [implDefs, List.filterMap_append, List.map_append] at hnames
    exact hnames.of_append_left
  starts := by
    have hstarts := h.starts
    rw [startDefs, List.filterMap_append, List.length_append] at hstarts
    exact Nat.le_of_add_right_le hstarts
  acyclic n hcycle := h.acyclic n (Relation.TransGen.mono (inherits_le_append more) n n hcycle)

theorem each_append {P : Item → Prop} (item : Item) :
    (∀ i ∈ items ++ [item], P i) ↔ (∀ i ∈ items, P i) ∧ P item := by
  simp [or_imp, forall_and]

theorem nodup_append_singleton {l : List String} (x : String) :
    (l ++ [x]).Nodup ↔ l.Nodup ∧ x ∉ l := by
  rw [← List.concat_eq_append, List.nodup_concat, and_comm]

/-- A struct item can follow if its name is new among the struct items and it closes no cycle. -/
theorem declarable_struct (d : StructDef) :
    Declarable (items ++ [.struct d]) ↔ Declarable items ∧ d.Admissible ∧
      structDef? items d.name.lexeme = none ∧
      ∀ n, ¬ Relation.TransGen (Inherits (items ++ [.struct d])) n n := by
  rw [structDef?_eq_none_iff]
  constructor
  · intro h
    have heach := (each_append _).1 h.each
    have hstructs := h.structNames
    rw [structDefs_append, List.map_append] at hstructs
    exact ⟨h.of_append, heach.2, ((nodup_append_singleton _).1 hstructs).2, h.acyclic⟩
  · rintro ⟨h, hd, hnew, hacyclic⟩
    refine ⟨(each_append _).2 ⟨h.each, hd⟩, ?_, ?_, ?_, hacyclic⟩
    · rw [structDefs_append, List.map_append]
      exact (nodup_append_singleton _).2 ⟨h.structNames, hnew⟩
    · simpa using h.implNames
    · simpa using h.starts

/-- An impl block can follow if its name is new among the impl blocks. -/
theorem declarable_impl (d : ImplDef) :
    Declarable (items ++ [.impl d]) ↔ Declarable items ∧ d.Admissible ∧
      implDef? items d.name.lexeme = none := by
  have hinherits : Inherits (items ++ [.impl d]) = Inherits items :=
    inherits_append_of_structDef? rfl
  rw [implDef?_eq_none_iff]
  constructor
  · intro h
    have heach := (each_append _).1 h.each
    have himpls := h.implNames
    rw [implDefs_append, List.map_append] at himpls
    exact ⟨h.of_append, heach.2, ((nodup_append_singleton _).1 himpls).2⟩
  · rintro ⟨h, hd, hnew⟩
    refine ⟨(each_append _).2 ⟨h.each, hd⟩, ?_, ?_, ?_, hinherits.symm ▸ h.acyclic⟩
    · simpa using h.structNames
    · rw [implDefs_append, List.map_append]
      exact (nodup_append_singleton _).2 ⟨h.implNames, hnew⟩
    · simpa using h.starts

/-- A start item can follow if there is none. -/
theorem declarable_start (d : StartDef) :
    Declarable (items ++ [.start d]) ↔ Declarable items ∧
      (d.locals.map (·.name.lexeme)).Nodup ∧ startDefs items = [] := by
  have hinherits : Inherits (items ++ [.start d]) = Inherits items :=
    inherits_append_of_structDef? rfl
  constructor
  · intro h
    have heach := (each_append _).1 h.each
    have hlength := h.starts
    rw [startDefs_append, List.length_append] at hlength
    have hnone := Nat.le_zero.1 (Nat.le_of_succ_le_succ hlength)
    exact ⟨h.of_append, heach.2, List.length_eq_zero_iff.1 hnone⟩
  · rintro ⟨h, hd, hnil⟩
    refine ⟨(each_append _).2 ⟨h.each, hd⟩, ?_, ?_, ?_, hinherits.symm ▸ h.acyclic⟩
    · simpa using h.structNames
    · simpa using h.implNames
    · simp [hnil]

end Items

end StructLang
