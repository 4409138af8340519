import StructLang.Proofs.Listing
import StructLang.Proofs.StateRun
import StructLang.Struct.Inherit

/-!
# What a struct holds after it has taken over its parent's members

The merge works on maps, in place: it copies inherited members, lets own methods take the slots that
they override, and renumbers the rest.  This module says what comes out of it, as lists in slot
order.

* `Method.layout` and `Attr.layout` are the reference: the members of the parent come first, an
  overriding method stands in the place of the one it overrides, and the struct's other members
  follow in the order of their declaration.  The place of a member is its slot.
* `inheritMethods_eq_ok` and `inheritAttributes_eq_ok`: a merge succeeds exactly when no pair of
  members clashes, and then the members are those of the reference.
* `inheritFrom_eq_ok` puts the two together for a struct with well-numbered members (`Laid`).
-/

namespace StructLang

/-! ## The reference layout -/

/-- What stands in the place of an inherited method: the own method of its name, if there is one. -/
def Method.overriddenBy (own : List Method) (m : Method) : Method :=
  (own.find? (·.name == m.name)).getD m

/-- Methods with their places as slots. -/
def Method.numbered (l : List Method) : List Method :=
  l.mapIdx fun i m => { m with slot := i }

/-- The own methods that override none of the inherited ones. -/
def Method.added (inherited own : List Method) : List Method :=
  own.filter fun m => m.name ∉ inherited.map Method.name

/-- The methods of a struct with the given inherited and own methods. -/
def Method.layout (inherited own : List Method) : List Method :=
  numbered (inherited.map (overriddenBy own) ++ added inherited own)

/-- Attributes with their places as slots. -/
def Attr.numbered (l : List Attr) : List Attr :=
  l.mapIdx fun i a => { a with slot := i }

/-- The attributes of a struct with the given inherited and own attributes. -/
def Attr.layout (inherited own : List Attr) : List Attr :=
  numbered (inherited.map copied ++ own)

section Layout

variable {inherited own : List Method} {inheritedAttrs ownAttrs : List Attr}

/-- An attribute of a layout is a copy of an inherited attribute or an own one, apart from its
slot. -/
theorem Attr.exists_of_mem_layout {a : Attr} (h : a ∈ Attr.layout inheritedAttrs ownAttrs) :
    ∃ b slot, b ∈ inheritedAttrs ∧ a = { b.copied with slot } ∨
      b ∈ ownAttrs ∧ a = { b with slot } := by
  obtain ⟨i, hi, rfl⟩ := List.mem_mapIdx.1 h
  rcases List.mem_append.1 (List.getElem_mem hi) with hmem | hmem
  · obtain ⟨b, hb, heq⟩ := List.mem_map.1 hmem
    exact ⟨b, i, .inl ⟨hb, by rw [heq]⟩⟩
  · exact ⟨_, i, .inr ⟨hmem, rfl⟩⟩

theorem Attr.exists_mem_numbered {l : List Attr} {a : Attr} (h : a ∈ l) :
    ∃ slot, { a with slot } ∈ Attr.numbered l := by
  obtain ⟨i, hi, rfl⟩ := List.getElem_of_mem h
  exact ⟨i, List.mem_mapIdx.2 ⟨i, hi, rfl⟩⟩

/-- Every inherited attribute is in the layout as a copy, apart from its slot. -/
theorem Attr.exists_mem_layout_of_inherited {b : Attr} (h : b ∈ inheritedAttrs) :
    ∃ slot, { b.copied with slot } ∈ Attr.layout inheritedAttrs ownAttrs :=
  exists_mem_numbered (List.mem_append_left _ (List.mem_map_of_mem h))

/-- Every own attribute is in the layout, apart from its slot. -/
theorem Attr.exists_mem_layout_of_own {b : Attr} (h : b ∈ ownAttrs) :
    ∃ slot, { b with slot } ∈ Attr.layout inheritedAttrs ownAttrs :=
  exists_mem_numbered (List.mem_append_right _ h)

/-- A method of a layout is an own method or an inherited one that none overrides, apart from its
slot. -/
theorem Method.exists_of_mem_layout {m : Method} (h : m ∈ Method.layout inherited own) :
    ∃ b, (b ∈ own ∨ b ∈ inherited ∧ ∀ c ∈ own, c.name ≠ b.name) ∧ ∃ slot, m = { b with slot } := by
  obtain ⟨i, hi, rfl⟩ := List.mem_mapIdx.1 h
  refine ⟨_, ?_, i, rfl⟩
  rcases List.mem_append.1 (List.getElem_mem hi) with hmem | hmem
  · obtain ⟨a, ha, heq⟩ := List.mem_map.1 hmem
    rw [← heq, overriddenBy]
    cases hfind : own.find? (·.name == a.name) with
    | none => exact .inr ⟨ha, by simpa using hfind⟩
    | some c => exact .inl (List.mem_of_find?_eq_some hfind)
  · exact .inl (List.mem_filter.1 hmem).1

theorem Method.exists_mem_numbered {l : List Method} {m : Method} (h : m ∈ l) :
    ∃ slot, { m with slot } ∈ Method.numbered l := by
  obtain ⟨i, hi, rfl⟩ := List.getElem_of_mem h
  exact ⟨i, List.mem_mapIdx.2 ⟨i, hi, rfl⟩⟩

/-- Every own method is in the layout, apart from its slot. -/
theorem Method.exists_mem_layout_of_own (hnodup : (own.map Method.name).Nodup) {m : Method}
    (h : m ∈ own) : ∃ slot, { m with slot } ∈ Method.layout inherited own := by
  refine exists_mem_numbered (List.mem_append.2 ?_)
  by_cases hname : m.name ∈ inherited.map Method.name
  · obtain ⟨a, ha, heq⟩ := List.mem_map.1 hname
    refine .inl (List.mem_map.2 ⟨a, ha, ?_⟩)
    rw [overriddenBy]
    cases hfind : own.find? (·.name == a.name) with
    | none => exact absurd heq.symm (by simpa using List.find?_eq_none.1 hfind m h)
    | some c =>
      have hc : c.name = a.name := by simpa using List.find?_some hfind
      exact List.inj_on_of_nodup_map hnodup (List.mem_of_find?_eq_some hfind) h (hc.trans heq)
  · exact .inr (List.mem_filter.2 ⟨h, by simpa using hname⟩)

/-- Every inherited method is in the layout, apart from its slot, or an own method overrides it. -/
theorem Method.exists_mem_layout_of_inherited {a : Method} (h : a ∈ inherited) :
    ∃ m slot, { m with slot } ∈ Method.layout inherited own ∧
      (m = a ∨ m ∈ own ∧ m.name = a.name) := by
  obtain ⟨slot, hslot⟩ := exists_mem_numbered
    (List.mem_append_left (Method.added inherited own) (List.mem_map_of_mem h))
  refine ⟨_, slot, hslot, ?_⟩
  rw [overriddenBy]
  cases hfind : own.find? (·.name == a.name) with
  | none => exact .inl rfl
  | some c => exact .inr ⟨List.mem_of_find?_eq_some hfind, by simpa using List.find?_some hfind⟩

end Layout

namespace Struct

/-- What a map holds in the place of an inherited method. -/
def takenOver (own : NameMap Method) (ancestor : Method) : Method :=
  match own.get? ancestor.name with
  | none => ancestor
  | some m => { m with slot := ancestor.slot }

/-! ## One inherited method -/

theorem inheritMethod_eq_ok {ancestor : Method} {s s' : Struct} :
    (inheritMethod ancestor).run s = .ok () s' ↔
      (∀ own, s.methods.get? ancestor.name = some own → overrideFault? own ancestor = none) ∧
        s' = { s with
          methods := s.methods.insert ancestor.name (takenOver s.methods ancestor) } := by
  cases hget : s.methods.get? ancestor.name with
  | none =>
    have hrun : (inheritMethod ancestor).run s =
        .ok () { s with methods := s.methods.insert ancestor.name ancestor } := by
      simp only [inheritMethod, EStateM.run_bind, EStateM.run_get, hget]
      rfl
    simp [hrun, takenOver, hget, eq_comm]
  | some own =>
    cases hfault : overrideFault? own ancestor with
    | none =>
      have hrun : (inheritMethod ancestor).run s = .ok () { s with
          methods := s.methods.insert ancestor.name { own with slot := ancestor.slot } } := by
        simp only [inheritMethod, EStateM.run_bind, EStateM.run_get, hget, hfault]
        rfl
      simp [hrun, takenOver, hget, hfault, eq_comm]
    | some fault =>
      have hrun : (inheritMethod ancestor).run s =
          .error ⟨.invalidOverride own.name fault, own.token.position⟩ s := by
        simp only [inheritMethod, EStateM.run_bind, EStateM.run_get, hget, hfault]
        rfl
      simp [hrun, hfault]

/-! ## All inherited methods -/

/-- The methods after the inherited ones have been taken over one by one.  `own` is the map before
the first of them, and still answers for the names that are to come. -/
theorem forM_inheritMethod_eq_ok {own : NameMap Method} {inherited : List Method} {s s' : Struct}
    (hnodup : (inherited.map Method.name).Nodup)
    (hown : ∀ a ∈ inherited, s.methods.get? a.name = own.get? a.name) :
    (inherited.forM inheritMethod).run s = .ok () s' ↔
      (∀ a ∈ inherited, ∀ m, own.get? a.name = some m → overrideFault? m a = none) ∧
        s' = { s with methods :=
          inherited.foldl (fun ms a => ms.insert a.name (takenOver own a)) s.methods } := by
  induction inherited generalizing s with
  | nil =>
    rw [run_forM_nil]
    simp [eq_comm]
  | cons a rest ih =>
    rw [List.map_cons, List.nodup_cons] at hnodup
    have hhead : takenOver s.methods a = takenOver own a := by
      rw [takenOver, takenOver, hown a List.mem_cons_self]
    -- the entry that was written for `a` is not looked at again
    have hrest : ∀ b ∈ rest,
        (s.methods.insert a.name (takenOver own a)).get? b.name = own.get? b.name := by
      intro b hb
      have hne : b.name ≠ a.name := fun heq =>
        hnodup.1 (heq ▸ List.mem_map_of_mem hb)
      rw [NameMap.get?_insert, if_neg hne, hown b (List.mem_cons_of_mem _ hb)]
    rw [run_forM_cons_eq_ok]
    simp only [inheritMethod_eq_ok, hown a List.mem_cons_self, hhead, List.forall_mem_cons,
      List.foldl_cons]
    constructor
    · rintro ⟨s₁, ⟨hfault, rfl⟩, hrun⟩
      have := (ih hnodup.2 hrest).1 hrun
      exact ⟨⟨hfault, this.1⟩, this.2⟩
    · rintro ⟨⟨hfault, hfaults⟩, rfl⟩
      exact ⟨_, ⟨hfault, rfl⟩, (ih hnodup.2 hrest).2 ⟨hfaults, rfl⟩⟩

/-! ## Numbering the methods -/

section Numbering

variable {parentMap ownMap : NameMap Method} {inherited own : List Method}

theorem name_takenOver (hown : MethodListing ownMap own) (a : Method) :
    (takenOver ownMap a).name = a.name := by
  rw [takenOver]
  split
  · rfl
  · next m hget =>
    show m.name = a.name
    exact hown.name_eq hget

theorem overriddenBy_eq (hown : MethodListing ownMap own) {a : Method} {i : Nat}
    (hslot : a.slot = i) : { a.overriddenBy own with slot := i } = takenOver ownMap a := by
  rw [Method.overriddenBy, hown.find?_eq, takenOver]
  subst hslot
  cases ownMap.get? a.name <;> rfl

/-- The reference layout, in the order in which the merge builds it. -/
theorem layout_eq (hparent : MethodListing parentMap inherited) (hown : MethodListing ownMap own) :
    Method.layout inherited own = inherited.map (takenOver ownMap) ++
      ((Method.added inherited own).zipIdx inherited.length).map
        fun p => { p.1 with slot := p.2 } := by
  rw [Method.layout, Method.numbered, List.mapIdx_append]
  congr 1
  · refine List.ext_getElem? fun i => ?_
    rw [List.getElem?_mapIdx, List.getElem?_map, List.getElem?_map, Option.map_map]
    refine Option.map_congr fun a ha => ?_
    exact overriddenBy_eq hown (hparent.slots i a ha)
  · refine List.ext_getElem? fun i => ?_
    rw [List.getElem?_mapIdx, List.getElem?_map, List.getElem?_zipIdx, List.length_map,
      Option.map_map]
    refine Option.map_congr fun m _ => ?_
    simp only [Function.comp, Nat.add_comm]

theorem slots_layout (i : Nat) (m : Method) (hm : (Method.layout inherited own)[i]? = some m) :
    m.slot = i := by
  rw [Method.layout, Method.numbered, List.getElem?_mapIdx, Option.map_eq_some_iff] at hm
  obtain ⟨m', _, rfl⟩ := hm
  rfl

theorem names_layout (hparent : MethodListing parentMap inherited)
    (hown : MethodListing ownMap own) :
    (Method.layout inherited own).map Method.name =
      inherited.map Method.name ++ (Method.added inherited own).map Method.name := by
  rw [layout_eq hparent hown, List.map_append, List.map_map, List.map_map]
  congr 1
  · exact List.map_congr_left fun a _ => name_takenOver hown a
  · refine List.ext_getElem? fun i => ?_
    rw [List.getElem?_map, List.getElem?_zipIdx, List.getElem?_map, Option.map_map]
    rfl

theorem nodup_layout (hparent : MethodListing parentMap inherited)
    (hown : MethodListing ownMap own) : ((Method.layout inherited own).map Method.name).Nodup := by
  rw [names_layout hparent hown, List.nodup_append]
  refine ⟨hparent.nodup, hown.nodup.sublist (List.filter_sublist.map _), ?_⟩
  intro n hn n' hn' heq
  obtain ⟨m, hm, rfl⟩ := List.mem_map.1 hn'
  have hout := (List.mem_filter.1 hm).2
  rw [decide_eq_true_iff] at hout
  exact hout (heq ▸ hn)

/-- The map after all inherited methods have been taken over, before own methods are renumbered. -/
def adopted (ownMap : NameMap Method) (inherited : List Method) : NameMap Method :=
  inherited.foldl (fun ms a => ms.insert a.name (takenOver ownMap a)) ownMap

theorem get?_adopted_of_mem (hparent : MethodListing parentMap inherited) {a : Method}
    (ha : a ∈ inherited) : (adopted ownMap inherited).get? a.name = some (takenOver ownMap a) :=
  NameMap.get?_foldl_insert_of_mem Method.name (takenOver ownMap) hparent.nodup ha ownMap

theorem get?_adopted_of_not_mem {n : String} (hn : n ∉ inherited.map Method.name) :
    (adopted ownMap inherited).get? n = ownMap.get? n :=
  NameMap.get?_foldl_insert_of_not_mem Method.name (takenOver ownMap) hn ownMap

theorem name_adopted (hparent : MethodListing parentMap inherited) (hown : MethodListing ownMap own)
    {n : String} {m : Method} (hget : (adopted ownMap inherited).get? n = some m) : m.name = n := by
  by_cases hn : n ∈ inherited.map Method.name
  · obtain ⟨a, ha, rfl⟩ := List.mem_map.1 hn
    rw [get?_adopted_of_mem hparent ha] at hget
    cases hget
    exact name_takenOver hown a
  · rw [get?_adopted_of_not_mem hn] at hget
    exact hown.name_eq hget

/-- The methods that the merge renumbers are the own ones that override nothing. -/
theorem newMethods_eq {s : Struct} (hparent : MethodListing parentMap inherited)
    (hown : MethodListing ownMap own) (howner : ∀ m ∈ own, m.owner = some s.name)
    (hmethods : s.methods = adopted ownMap inherited) :
    s.newMethods parentMap = Method.added inherited own := by
  have hkeyed : s.methods.KeyedBy Method.name := fun n m hget =>
    name_adopted hparent hown (hmethods ▸ hget)
  refine sortBySlot_filter_values hkeyed (hown.pairwise_slot.filter _) fun m => ?_
  rw [Method.added, List.mem_filter, hmethods, Bool.and_eq_true, beq_iff_eq, Bool.not_eq_true',
    decide_eq_true_iff, NameMap.contains_eq_false_iff, hparent.get?_eq_none_iff]
  constructor
  · rintro ⟨⟨n, hget⟩, _, hout⟩
    have hn := name_adopted hparent hown hget
    rw [get?_adopted_of_not_mem (hn ▸ hout)] at hget
    exact ⟨((hown.get?_iff n m).1 hget).1, hout⟩
  · rintro ⟨hm, hout⟩
    refine ⟨⟨m.name, ?_⟩, howner m hm, hout⟩
    rw [get?_adopted_of_not_mem hout]
    exact hown.mem_iff.1 hm

/-- The methods after the merge are those of the reference layout. -/
theorem listing_renumberMethods {s : Struct} (hparent : MethodListing parentMap inherited)
    (hown : MethodListing ownMap own) (howner : ∀ m ∈ own, m.owner = some s.name)
    (hmethods : s.methods = adopted ownMap inherited) :
    MethodListing (s.renumberMethods parentMap).methods (Method.layout inherited own) := by
  let added := (Method.added inherited own).zipIdx inherited.length
  have hadded : added.map (fun p => p.1.name) = (Method.added inherited own).map Method.name := by
    refine List.ext_getElem? fun i => ?_
    rw [List.getElem?_map, List.getElem?_zipIdx, List.getElem?_map, Option.map_map]
    rfl
  have hmap : (s.renumberMethods parentMap).methods = added.foldl
      (fun ms p => ms.insert p.1.name { p.1 with slot := p.2 }) (adopted ownMap inherited) := by
    rw [renumberMethods, newMethods_eq hparent hown howner hmethods, hparent.size_eq, hmethods]
  have hnames := names_layout hparent hown
  have hnodup := nodup_layout hparent hown
  rw [hmap]
  refine .of_get? hnodup slots_layout (fun m hm => ?_) fun n hn => ?_
  · rw [layout_eq hparent hown, List.mem_append] at hm
    rcases hm with hm | hm
    · -- an inherited method, or what overrides it: none of the added methods has its name
      obtain ⟨a, ha, rfl⟩ := List.mem_map.1 hm
      have hout : (takenOver ownMap a).name ∉ added.map fun p => p.1.name := by
        rw [hnames, List.nodup_append] at hnodup
        rw [hadded, name_takenOver hown]
        exact fun hin => hnodup.2.2 a.name (List.mem_map_of_mem ha) a.name hin rfl
      rw [NameMap.get?_foldl_insert_of_not_mem (fun p : Method × Nat => p.1.name) _ hout,
        name_takenOver hown]
      exact get?_adopted_of_mem hparent ha
    · obtain ⟨p, hp, rfl⟩ := List.mem_map.1 hm
      have hnodup' : (added.map fun p => p.1.name).Nodup := by
        rw [hadded]
        exact hown.nodup.sublist (List.filter_sublist.map _)
      exact NameMap.get?_foldl_insert_of_mem (fun p : Method × Nat => p.1.name)
        (fun p => { p.1 with slot := p.2 }) hnodup' hp _
  · rw [hnames, List.mem_append, not_or] at hn
    rw [NameMap.get?_foldl_insert_of_not_mem (fun p : Method × Nat => p.1.name) _ (hadded ▸ hn.2),
      get?_adopted_of_not_mem hn.1, hown.get?_eq_none_iff]
    intro hin
    obtain ⟨m, hm, rfl⟩ := List.mem_map.1 hin
    exact hn.2 (List.mem_map_of_mem (List.mem_filter.2 ⟨hm, decide_eq_true hn.1⟩))

end Numbering

/-! ## The merge of the methods -/

/-- Methods that are numbered already stay as they are. -/
theorem layout_nil {ownMap : NameMap Method} {own : List Method} (hown : MethodListing ownMap own) :
    Method.layout [] own = own := by
  refine List.ext_getElem? fun i => ?_
  rw [Method.layout, Method.numbered, Method.added, List.getElem?_mapIdx]
  simp only [List.map_nil, List.nil_append, List.not_mem_nil, not_false_eq_true, decide_true,
    List.filter_true]
  cases h : own[i]? with
  | none => rfl
  | some m =>
    have hslot : m.slot = i := hown.slots i m h
    subst hslot
    rfl

theorem inheritMethods_eq_ok {parentMap : NameMap Method} {inherited own : List Method}
    {s s' : Struct} (hparent : MethodListing parentMap inherited)
    (hown : MethodListing s.methods own) (howner : ∀ m ∈ own, m.owner = some s.name)
    (hnext : s.nextMethodSlot = own.length) :
    (inheritMethods parentMap).run s = .ok () s' ↔
      (∀ a ∈ inherited, ∀ m ∈ own, m.name = a.name → overrideFault? m a = none) ∧
        ∃ methods, MethodListing methods (Method.layout inherited own) ∧
          s' = { s with methods, nextMethodSlot := (Method.layout inherited own).length } := by
  have hfault : (∀ a ∈ inherited, ∀ m, s.methods.get? a.name = some m → overrideFault? m a = none) ↔
      ∀ a ∈ inherited, ∀ m ∈ own, m.name = a.name → overrideFault? m a = none := by
    simp only [hown.get?_iff, and_imp]
  rw [inheritMethods]
  by_cases hempty : parentMap.isEmpty = true
  · have hnil := hparent.isEmpty_iff.1 hempty
    subst hnil
    rw [if_pos hempty, layout_nil hown, ← hnext]
    simp only [List.not_mem_nil, false_imp_iff, implies_true, true_and]
    constructor
    · intro hrun
      cases hrun
      exact ⟨s.methods, hown, rfl⟩
    · rintro ⟨methods, hmethods, rfl⟩
      rw [hmethods.map_unique hown]
      rfl
  · have hsort : Method.bySlot parentMap.values = inherited := hparent.sort_eq
    rw [if_neg hempty, run_bind_eq_ok, hsort]
    simp only [forM_inheritMethod_eq_ok hparent.nodup fun _ _ => rfl, EStateM.run_modify, hfault]
    constructor
    · rintro ⟨_, s₁, ⟨hok, rfl⟩, hrun⟩
      cases hrun
      have hlisting := listing_renumberMethods (s := { s with
        methods := adopted s.methods inherited }) hparent hown howner rfl
      refine ⟨hok, _, hlisting, ?_⟩
      rw [← hlisting.size_eq]
      rfl
    · rintro ⟨hok, methods, hmethods, rfl⟩
      have hlisting := listing_renumberMethods (s := { s with
        methods := adopted s.methods inherited }) hparent hown howner rfl
      refine ⟨(), _, ⟨hok, rfl⟩, ?_⟩
      rw [hmethods.map_unique hlisting, ← hlisting.size_eq]
      rfl

/-! ## The merge of the attributes -/

theorem inheritAttribute_eq_ok {ancestor : Attr} {s s' : Struct} :
    (inheritAttribute ancestor).run s = .ok () s' ↔ s.attributes.get? ancestor.name = none ∧
      s' = { s with attributes := s.attributes.insert ancestor.name ancestor.copied } := by
  cases hget : s.attributes.get? ancestor.name with
  | none =>
    have hrun : (inheritAttribute ancestor).run s =
        .ok () { s with attributes := s.attributes.insert ancestor.name ancestor.copied } := by
      simp only [inheritAttribute, EStateM.run_bind, EStateM.run_get, hget]
      rfl
    simp [hrun, eq_comm]
  | some own =>
    have hrun : (inheritAttribute ancestor).run s =
        .error ⟨.repeated .inheritedAttribute own.name, own.token.position⟩ s := by
      simp only [inheritAttribute, EStateM.run_bind, EStateM.run_get, hget]
      rfl
    simp [hrun]

theorem forM_inheritAttribute_eq_ok {inherited : List Attr} {s s' : Struct}
    (hnodup : (inherited.map Attr.name).Nodup) :
    (inherited.forM inheritAttribute).run s = .ok () s' ↔
      (∀ a ∈ inherited, s.attributes.get? a.name = none) ∧
        s' = { s with attributes :=
          inherited.foldl (fun attrs a => attrs.insert a.name a.copied) s.attributes } := by
  induction inherited generalizing s with
  | nil =>
    rw [run_forM_nil]
    simp [eq_comm]
  | cons a rest ih =>
    rw [List.map_cons, List.nodup_cons] at hnodup
    have hrest : (∀ b ∈ rest, (s.attributes.insert a.name a.copied).get? b.name = none) ↔
        ∀ b ∈ rest, s.attributes.get? b.name = none := by
      refine forall₂_congr fun b hb => ?_
      have hne : b.name ≠ a.name := fun heq => hnodup.1 (heq ▸ List.mem_map_of_mem hb)
      rw [NameMap.get?_insert, if_neg hne]
    rw [run_forM_cons_eq_ok]
    simp only [inheritAttribute_eq_ok, List.forall_mem_cons, List.foldl_cons]
    constructor
    · rintro ⟨s₁, ⟨hhead, rfl⟩, hrun⟩
      have := (ih hnodup.2).1 hrun
      exact ⟨⟨hhead, hrest.1 this.1⟩, this.2⟩
    · rintro ⟨⟨hhead, hnone⟩, rfl⟩
      exact ⟨_, ⟨hhead, rfl⟩, (ih hnodup.2).2 ⟨hrest.2 hnone, rfl⟩⟩

section Shifting

variable {parentMap ownMap : NameMap Attr} {inherited own : List Attr}

/-- The reference layout, in the order in which the merge builds it. -/
theorem attrLayout_eq (hparent : AttrListing parentMap inherited) (hown : AttrListing ownMap own) :
    Attr.layout inherited own = inherited.map Attr.copied ++
      own.map fun a => { a with slot := a.slot + inherited.length } := by
  rw [Attr.layout, Attr.numbered, List.mapIdx_append, List.length_map]
  congr 1
  · refine List.ext_getElem? fun i => ?_
    rw [List.getElem?_mapIdx, List.getElem?_map, Option.map_map]
    refine Option.map_congr fun a ha => ?_
    have hslot : a.slot = i := hparent.slots i a ha
    subst hslot
    rfl
  · refine List.ext_getElem? fun i => ?_
    rw [List.getElem?_mapIdx, List.getElem?_map]
    refine Option.map_congr fun a ha => ?_
    rw [hown.slots i a ha]

theorem slots_attrLayout (i : Nat) (a : Attr) (ha : (Attr.layout inherited own)[i]? = some a) :
    a.slot = i := by
  rw [Attr.layout, Attr.numbered, List.getElem?_mapIdx, Option.map_eq_some_iff] at ha
  obtain ⟨a', _, rfl⟩ := ha
  rfl

theorem names_attrLayout : (Attr.layout inherited own).map Attr.name =
    inherited.map Attr.name ++ own.map Attr.name := by
  have hcopied : inherited.map Attr.name = (inherited.map Attr.copied).map Attr.name := by
    rw [List.map_map]
    rfl
  rw [Attr.layout, Attr.numbered, hcopied, ← List.map_append]
  refine List.ext_getElem? fun i => ?_
  rw [List.getElem?_map, List.getElem?_mapIdx, List.getElem?_map, Option.map_map]
  rfl

/-- The map after all inherited attributes have been taken over, before own ones are renumbered. -/
def adoptedAttrs (ownMap : NameMap Attr) (inherited : List Attr) : NameMap Attr :=
  inherited.foldl (fun attrs a => attrs.insert a.name a.copied) ownMap

theorem get?_adoptedAttrs_of_mem (hnodup : (inherited.map Attr.name).Nodup) {a : Attr}
    (ha : a ∈ inherited) : (adoptedAttrs ownMap inherited).get? a.name = some a.copied :=
  NameMap.get?_foldl_insert_of_mem Attr.name Attr.copied hnodup ha ownMap

theorem get?_adoptedAttrs_of_not_mem {n : String} (hn : n ∉ inherited.map Attr.name) :
    (adoptedAttrs ownMap inherited).get? n = ownMap.get? n :=
  NameMap.get?_foldl_insert_of_not_mem Attr.name Attr.copied hn ownMap

theorem name_adoptedAttrs (hparent : AttrListing parentMap inherited)
    (hown : AttrListing ownMap own) {n : String} {a : Attr}
    (hget : (adoptedAttrs ownMap inherited).get? n = some a) : a.name = n := by
  by_cases hn : n ∈ inherited.map Attr.name
  · obtain ⟨b, hb, rfl⟩ := List.mem_map.1 hn
    rw [get?_adoptedAttrs_of_mem hparent.nodup hb] at hget
    cases hget
    rfl
  · rw [get?_adoptedAttrs_of_not_mem hn] at hget
    exact hown.name_eq hget

theorem name_not_mem_of_own (hown : AttrListing ownMap own)
    (hdisjoint : ∀ a ∈ inherited, ownMap.get? a.name = none) {a : Attr} (ha : a ∈ own) :
    a.name ∉ inherited.map Attr.name := by
  intro hin
  obtain ⟨b, hb, heq⟩ := List.mem_map.1 hin
  have hnone := hdisjoint b hb
  rw [heq, hown.mem_iff.1 ha] at hnone
  cases hnone

/-- The attributes that the merge renumbers, which are those without the mark, are the own ones. -/
theorem ownAttributes_perm {s : Struct} (hparent : AttrListing parentMap inherited)
    (hown : AttrListing ownMap own) (hdisjoint : ∀ a ∈ inherited, ownMap.get? a.name = none)
    (hunmarked : ∀ a ∈ own, a.inherited = false)
    (hattributes : s.attributes = adoptedAttrs ownMap inherited) :
    (s.attributes.values.filter (!·.inherited)).Perm own := by
  have hnodup : s.attributes.values.Nodup := NameMap.nodup_values fun n a hget =>
    name_adoptedAttrs hparent hown (hattributes ▸ hget)
  refine (List.perm_ext_iff_of_nodup (hnodup.filter _) hown.nodup_list).2 fun a => ?_
  rw [List.mem_filter, NameMap.mem_values_iff, Bool.not_eq_true', hattributes]
  constructor
  · rintro ⟨⟨n, hget⟩, hpicked⟩
    by_cases hn : n ∈ inherited.map Attr.name
    · obtain ⟨b, hb, rfl⟩ := List.mem_map.1 hn
      rw [get?_adoptedAttrs_of_mem hparent.nodup hb] at hget
      cases hget
      cases hpicked
    · rw [get?_adoptedAttrs_of_not_mem hn] at hget
      exact ((hown.get?_iff n a).1 hget).1
  · intro ha
    refine ⟨⟨a.name, ?_⟩, hunmarked a ha⟩
    rw [get?_adoptedAttrs_of_not_mem (name_not_mem_of_own hown hdisjoint ha)]
    exact hown.mem_iff.1 ha

/-- The attributes after the merge are those of the reference layout. -/
theorem listing_renumberAttributes {s : Struct} (hparent : AttrListing parentMap inherited)
    (hown : AttrListing ownMap own) (hdisjoint : ∀ a ∈ inherited, ownMap.get? a.name = none)
    (hunmarked : ∀ a ∈ own, a.inherited = false)
    (hattributes : s.attributes = adoptedAttrs ownMap inherited) :
    AttrListing (s.renumberAttributes parentMap).attributes (Attr.layout inherited own) := by
  have hpicked := ownAttributes_perm hparent hown hdisjoint hunmarked hattributes
  have hnames := hpicked.map Attr.name
  have hnew : ∀ a ∈ own, a.name ∉ inherited.map Attr.name := fun a ha =>
    name_not_mem_of_own hown hdisjoint ha
  have hnodup : ((Attr.layout inherited own).map Attr.name).Nodup := by
    rw [names_attrLayout, List.nodup_append]
    refine ⟨hparent.nodup, hown.nodup, fun n hn n' hn' heq => ?_⟩
    obtain ⟨a, ha, rfl⟩ := List.mem_map.1 hn'
    exact hnew a ha (heq ▸ hn)
  rw [renumberAttributes, hparent.size_eq]
  refine .of_get? hnodup slots_attrLayout (fun a ha => ?_) fun n hn => ?_
  · rw [attrLayout_eq hparent hown, List.mem_append] at ha
    rcases ha with ha | ha
    · obtain ⟨c, hc, rfl⟩ := List.mem_map.1 ha
      have hout : c.name ∉ (s.attributes.values.filter (!·.inherited)).map Attr.name := by
        rw [hnames.mem_iff]
        intro hin
        obtain ⟨b, hb, heq⟩ := List.mem_map.1 hin
        exact hnew b hb (heq ▸ List.mem_map_of_mem hc)
      show NameMap.get? _ c.name = _
      rw [NameMap.get?_foldl_insert_of_not_mem Attr.name _ hout, hattributes]
      exact get?_adoptedAttrs_of_mem hparent.nodup hc
    · obtain ⟨b, hb, rfl⟩ := List.mem_map.1 ha
      exact NameMap.get?_foldl_insert_of_mem Attr.name
        (fun a => { a with slot := a.slot + inherited.length })
        (hnames.nodup_iff.2 hown.nodup) (hpicked.mem_iff.2 hb) _
  · rw [names_attrLayout, List.mem_append, not_or] at hn
    have hout : n ∉ (s.attributes.values.filter (!·.inherited)).map Attr.name := by
      rw [hnames.mem_iff]
      exact hn.2
    rw [NameMap.get?_foldl_insert_of_not_mem Attr.name _ hout, hattributes,
      get?_adoptedAttrs_of_not_mem hn.1]
    exact hown.get?_eq_none_iff.2 hn.2

end Shifting

theorem inheritAttributes_eq_ok {parentMap : NameMap Attr} {inherited own : List Attr}
    {s s' : Struct} (hparent : AttrListing parentMap inherited)
    (hown : AttrListing s.attributes own) (hunmarked : ∀ a ∈ own, a.inherited = false)
    (hnext : s.nextAttributeSlot = own.length) :
    (inheritAttributes parentMap).run s = .ok () s' ↔
      (∀ a ∈ inherited, ∀ b ∈ own, b.name ≠ a.name) ∧
        ∃ attributes, AttrListing attributes (Attr.layout inherited own) ∧
          s' = { s with attributes, nextAttributeSlot := (Attr.layout inherited own).length } := by
  have hclash : (∀ a ∈ inherited, s.attributes.get? a.name = none) ↔
      ∀ a ∈ inherited, ∀ b ∈ own, b.name ≠ a.name := by
    refine forall₂_congr fun a _ => ?_
    rw [hown.get?_eq_none_iff, List.mem_map]
    exact ⟨fun h b hb heq => h ⟨b, hb, heq⟩, fun h ⟨b, hb, heq⟩ => h b hb heq⟩
  rw [inheritAttributes]
  by_cases hempty : parentMap.isEmpty = true
  · have hnil := hparent.isEmpty_iff.1 hempty
    subst hnil
    have hlayout : Attr.layout [] own = own := by simp [attrLayout_eq hparent hown]
    rw [if_pos hempty, hlayout, ← hnext]
    simp only [List.not_mem_nil, false_imp_iff, implies_true, true_and]
    constructor
    · intro hrun
      cases hrun
      exact ⟨s.attributes, hown, rfl⟩
    · rintro ⟨attributes, hattributes, rfl⟩
      rw [hattributes.map_unique hown]
      rfl
  · have hsort : Attr.bySlot parentMap.values = inherited := hparent.sort_eq
    rw [if_neg hempty, run_bind_eq_ok, hsort]
    simp only [forM_inheritAttribute_eq_ok hparent.nodup, EStateM.run_modify]
    constructor
    · rintro ⟨_, s₁, ⟨hok, rfl⟩, hrun⟩
      cases hrun
      have hlisting := listing_renumberAttributes (s := { s with
        attributes := adoptedAttrs s.attributes inherited }) hparent hown hok hunmarked rfl
      refine ⟨hclash.1 hok, _, hlisting, ?_⟩
      rw [← hlisting.size_eq]
      rfl
    · rintro ⟨hok, attributes, hattributes, rfl⟩
      have hlisting := listing_renumberAttributes (s := { s with
        attributes := adoptedAttrs s.attributes inherited })
        hparent hown (hclash.2 hok) hunmarked rfl
      refine ⟨(), _, ⟨hclash.2 hok, rfl⟩, ?_⟩
      rw [hattributes.map_unique hlisting, ← hlisting.size_eq]
      rfl

/-! ## The whole merge -/

/-- The members of a struct in slot order. -/
structure Laid (s : Struct) (ms : List Method) (as : List Attr) : Prop where
  methods : MethodListing s.methods ms
  attributes : AttrListing s.attributes as
  nextMethodSlot : s.nextMethodSlot = ms.length
  nextAttributeSlot : s.nextAttributeSlot = as.length

theorem Laid.methodsBySlot_eq {s : Struct} {ms : List Method} {as : List Attr}
    (h : s.Laid ms as) : s.methodsBySlot = ms :=
  h.methods.sort_eq

theorem Laid.attributesBySlot_eq {s : Struct} {ms : List Method} {as : List Attr}
    (h : s.Laid ms as) : s.attributesBySlot = as :=
  h.attributes.sort_eq

/-- Whether a struct may take over the members of a parent: its methods may override those of the
parent, and no attribute has the name of one of the parent. -/
structure Fits (inheritedMethods ownMethods : List Method) (inheritedAttrs ownAttrs : List Attr) :
    Prop where
  overrides : ∀ a ∈ inheritedMethods, ∀ m ∈ ownMethods, m.name = a.name → overrideFault? m a = none
  attributes : ∀ a ∈ inheritedAttrs, ∀ b ∈ ownAttrs, b.name ≠ a.name

/-- A merge succeeds exactly when the members fit, and gives the members of the reference layout. -/
theorem inheritFrom_eq_ok {p s s' : Struct} {inheritedMethods ownMethods : List Method}
    {inheritedAttrs ownAttrs : List Attr} (hparent : p.Laid inheritedMethods inheritedAttrs)
    (hown : s.Laid ownMethods ownAttrs) (hmethods : ∀ m ∈ ownMethods, m.owner = some s.name)
    (hattrs : ∀ a ∈ ownAttrs, a.inherited = false) :
    (inheritFrom p).run s = .ok () s' ↔ Fits inheritedMethods ownMethods inheritedAttrs ownAttrs ∧
      s'.Laid (Method.layout inheritedMethods ownMethods) (Attr.layout inheritedAttrs ownAttrs) ∧
      s' = { s with
        methods := s'.methods, nextMethodSlot := s'.nextMethodSlot, attributes := s'.attributes
        nextAttributeSlot := s'.nextAttributeSlot, consolidated := true } := by
  -- the attributes are merged into a struct that has its new methods already
  have hattributes (methods : NameMap Method) (slot : Nat) (s₁ : Struct) :
      (inheritAttributes p.attributes).run { s with methods, nextMethodSlot := slot } = .ok () s₁ ↔
        _ :=
    inheritAttributes_eq_ok hparent.attributes hown.attributes hattrs hown.nextAttributeSlot
  rw [inheritFrom, run_bind_eq_ok]
  simp only [run_bind_eq_ok, EStateM.run_modify,
    inheritMethods_eq_ok hparent.methods hown.methods hmethods hown.nextMethodSlot]
  constructor
  · rintro ⟨_, s₁, ⟨hoverrides, methods, hlisting, rfl⟩, _, s₂, hrun, hlast⟩
    obtain ⟨hnames, attributes, hlisting', rfl⟩ := (hattributes _ _ _).1 hrun
    cases hlast
    exact ⟨⟨hoverrides, hnames⟩, ⟨hlisting, hlisting', rfl, rfl⟩, rfl⟩
  · rintro ⟨hfits, hlaid, heq⟩
    refine ⟨(), _, ⟨hfits.overrides, s'.methods, hlaid.methods, rfl⟩, (), _,
      (hattributes _ _ _).2 ⟨hfits.attributes, s'.attributes, hlaid.attributes, rfl⟩, ?_⟩
    rw [← hlaid.nextMethodSlot, ← hlaid.nextAttributeSlot]
    exact congrArg _ heq.symm

/-- A merge of members that fit succeeds. -/
theorem exists_inheritFrom {p s : Struct} {inheritedMethods ownMethods : List Method}
    {inheritedAttrs ownAttrs : List Attr} (hparent : p.Laid inheritedMethods inheritedAttrs)
    (hown : s.Laid ownMethods ownAttrs) (hmethods : ∀ m ∈ ownMethods, m.owner = some s.name)
    (hattrs : ∀ a ∈ ownAttrs, a.inherited = false)
    (hfits : Fits inheritedMethods ownMethods inheritedAttrs ownAttrs) :
    ∃ s', (inheritFrom p).run s = .ok () s' := by
  have hnodup : ((Attr.layout inheritedAttrs ownAttrs).map Attr.name).Nodup := by
    rw [names_attrLayout, List.nodup_append]
    refine ⟨hparent.attributes.nodup, hown.attributes.nodup, fun n hn n' hn' heq => ?_⟩
    obtain ⟨a, ha, rfl⟩ := List.mem_map.1 hn
    obtain ⟨b, hb, rfl⟩ := List.mem_map.1 hn'
    exact hfits.attributes a ha b hb heq.symm
  obtain ⟨methods, hmethodMap⟩ := Listing.exists_map
    (nodup_layout hparent.methods hown.methods) slots_layout
  obtain ⟨attributes, hattrMap⟩ := Listing.exists_map hnodup slots_attrLayout
  exact ⟨{ s with
      methods, attributes, consolidated := true
      nextMethodSlot := (Method.layout inheritedMethods ownMethods).length
      nextAttributeSlot := (Attr.layout inheritedAttrs ownAttrs).length },
    (inheritFrom_eq_ok hparent hown hmethods hattrs).2
      ⟨hfits, ⟨hmethodMap, hattrMap, rfl, rfl⟩, rfl⟩⟩

end Struct

end StructLang
