import StructLang.Proofs.Merge

/-!
# Merging into a struct a second time

A merge that stops at a clash leaves the members that it took over before in the struct.  When it is
tried again, it meets these members as if the struct had declared them.

* A copied method that is not static passes, as a method with the signature of its ancestor; a
  copied static method is refused, since a static method cannot be overridden.
* A copied attribute is refused, since the name of an inherited attribute cannot occur twice.

`Struct.rejectedCopies` lists these errors.  `Joins.run_inheritFrom_again`: the second merge changes
nothing, and it fails with the first of them, or if there is none with the error of the first merge.
-/

namespace StructLang

/-! ## Copied members -/

/-- The error of a merge that finds a copy of the method where an overriding method would be. -/
def Method.copyError? (m : Method) : Option SemanticError :=
  if m.isStatic then
    some ⟨.invalidOverride m.name (.staticMethod m.name (m.owner.getD "")), m.token.position⟩
  else none

/-- The error of a merge that finds a copy of the attribute. -/
def Attr.copyError (a : Attr) : SemanticError :=
  ⟨.repeated .inheritedAttribute a.name, a.token.position⟩

namespace Struct

/-- The methods that the struct has from its ancestors, in slot order. -/
def copiedMethods (s : Struct) : List Method :=
  Method.bySlot (s.methods.values.filter (·.owner != some s.name))

/-- The attributes that the struct has from its ancestors, in slot order. -/
def copiedAttributes (s : Struct) : List Attr :=
  Attr.bySlot (s.attributes.values.filter (·.inherited))

/-- What is wrong with the inherited members of a struct, for a merge that takes them for declared
ones. -/
def rejectedCopies (s : Struct) : List SemanticError :=
  s.copiedMethods.filterMap Method.copyError? ++ s.copiedAttributes.map Attr.copyError

variable {p s s' : Struct} {e : SemanticError} {a : Method} {l own : List Method}

/-! ## Methods that have been taken over -/

/-- The struct `s'` has its own methods from `s` and has taken over the methods `l` as well. -/
structure TookOver (s s' : Struct) (l : List Method) : Prop where
  name : s'.name = s.name
  taken : ∀ a ∈ l, s'.methods.get? a.name = some (takenOver s.methods a)
  rest : ∀ n m, n ∉ l.map Method.name → s'.methods.get? n = some m →
    m.name = n ∧ m.owner = some s.name
  faultless : ∀ a ∈ l, ∀ m, s.methods.get? a.name = some m → overrideFault? m a = none

/-- What a merge finds wrong with a method that has been taken over. -/
def retakenError? (s : Struct) (a : Method) : Option SemanticError :=
  if (s.methods.get? a.name).isNone then a.copyError? else none

theorem overrideFault?_self (m : Method) : overrideFault? m m =
    if m.isStatic then some (.staticMethod m.name (m.owner.getD "")) else none := by
  simp [overrideFault?]

/-- A method that has been taken over stays as it is, unless it is a copy of a static one. -/
theorem TookOver.run_inheritMethod (h : TookOver s s' l) (ha : a ∈ l) :
    (inheritMethod a).run s' = checked (s.retakenError? a) s' := by
  have hget := h.taken a ha
  have hset : { s' with methods := s'.methods.insert a.name (takenOver s.methods a) } = s' := by
    rw [NameMap.insert_eq_self hget]
  simp only [inheritMethod, EStateM.run_bind, EStateM.run_get, hget]
  rw [takenOver] at hset ⊢
  rw [retakenError?]
  cases hown : s.methods.get? a.name with
  | none =>
    rw [hown] at hset
    simp only [overrideFault?_self, Method.copyError?]
    cases a.isStatic with
    | true => rfl
    | false => exact congrArg _ hset
  | some m =>
    rw [hown] at hset
    have hfault : overrideFault? { m with slot := a.slot } a = none := h.faultless a ha m hown
    simp only [hfault]
    exact congrArg _ hset

/-- The methods of ancestors are the copies, where nothing overrides. -/
theorem TookOver.copiedMethods_eq (h : TookOver s s' l) (hown : MethodListing s.methods own)
    (howner : ∀ m ∈ own, m.owner = some s.name) (hforeign : ∀ a ∈ l, a.owner ≠ some s.name)
    (hslots : l.Pairwise fun a b => a.slot < b.slot) :
    s'.copiedMethods = l.filter fun a => (s.methods.get? a.name).isNone := by
  have hkeyed : s'.methods.KeyedBy Method.name := by
    intro n m hget
    by_cases hn : n ∈ l.map Method.name
    · obtain ⟨a, ha, rfl⟩ := List.mem_map.1 hn
      cases (h.taken a ha).symm.trans hget
      exact name_takenOver hown a
    · exact (h.rest n m hn hget).1
  refine sortBySlot_filter_values hkeyed (hslots.filter _) fun m => ?_
  rw [List.mem_filter, bne_iff_ne, Option.isNone_iff_eq_none, h.name]
  constructor
  · rintro ⟨⟨n, hget⟩, hcopied⟩
    by_cases hn : n ∈ l.map Method.name
    · obtain ⟨a, ha, rfl⟩ := List.mem_map.1 hn
      cases (h.taken a ha).symm.trans hget
      rw [takenOver] at hcopied ⊢
      cases hget' : s.methods.get? a.name with
      | none => exact ⟨ha, hget'⟩
      | some m =>
        rw [hget'] at hcopied
        exact absurd (howner m ((hown.get?_iff _ m).1 hget').1) hcopied
    · exact absurd (h.rest n m hn hget).2 hcopied
  · rintro ⟨hm, hnone⟩
    refine ⟨⟨m.name, ?_⟩, hforeign m hm⟩
    rw [h.taken m hm, takenOver, hnone]

theorem TookOver.head?_copyErrors (hcopied : s'.copiedMethods =
    l.filter fun a => (s.methods.get? a.name).isNone) :
    (s'.copiedMethods.filterMap Method.copyError?).head? = l.findSome? s.retakenError? := by
  rw [hcopied, List.filterMap_filter, List.head?_filterMap]
  rfl

theorem tookOver_adopted (hown : MethodListing s.methods own)
    (howner : ∀ m ∈ own, m.owner = some s.name) (hnodup : (l.map Method.name).Nodup)
    (hfaultless : ∀ a ∈ l, ∀ m, s.methods.get? a.name = some m → overrideFault? m a = none) :
    TookOver s { s with methods := adopted s.methods l } l where
  name := rfl
  taken _ ha := NameMap.get?_foldl_insert_of_mem Method.name (takenOver s.methods) hnodup ha _
  rest n m hn hget := by
    have hget : s.methods.get? n = some m := (get?_adopted_of_not_mem hn).symm.trans hget
    exact ⟨hown.name_eq hget, howner m ((hown.get?_iff n m).1 hget).1⟩
  faultless := hfaultless

/-! ## The methods of the parent -/

/-- A loop over the members of the parent, which is skipped if there are none, and then a numbering:
only the loop may fail. -/
theorem run_numbered_eq_error {skip : Bool} {loop : Merge Unit} {number : Struct → Struct} :
    (if skip = true then pure () else do
      loop
      modify number : Merge Unit).run s = .error e s' ↔
        skip = false ∧ loop.run s = .error e s' := by
  cases skip with
  | true =>
    constructor
    · intro hrun
      cases hrun
    · rintro ⟨⟨⟩, _⟩
  | false =>
    rw [if_neg Bool.false_ne_true, run_bind_eq_error]
    constructor
    · rintro (hrun | ⟨_, _, _, hnumber⟩)
      · exact ⟨rfl, hrun⟩
      · cases hnumber
    · exact fun hrun => .inl hrun.2

section Methods

variable {parentMap : NameMap Method} {inherited : List Method}

/-- A method that fails to be taken over leaves the struct as it is. -/
theorem of_inheritMethod_error (hrun : (inheritMethod a).run s = .error e s') :
    s' = s ∧ ∃ m fault, s.methods.get? a.name = some m ∧
      e = ⟨.invalidOverride m.name fault, m.token.position⟩ := by
  unfold inheritMethod at hrun
  simp only [EStateM.run_bind, EStateM.run_get] at hrun
  cases hget : s.methods.get? a.name with
  | none =>
    rw [hget] at hrun
    cases hrun
  | some m =>
    simp only [hget] at hrun
    cases hfault : overrideFault? m a with
    | none =>
      rw [hfault] at hrun
      cases hrun
    | some fault =>
      rw [hfault] at hrun
      cases hrun
      exact ⟨rfl, m, fault, rfl, rfl⟩

/-- Where the methods of the parent fail to be taken over, those before the clash have been, and the
next time a copied static one among them is in the way. -/
theorem inheritMethods_error (hparent : MethodListing parentMap inherited)
    (hown : MethodListing s.methods own) (howner : ∀ m ∈ own, m.owner = some s.name)
    (hrun : (inheritMethods parentMap).run s = .error e s') :
    ∃ before a after, inherited = before ++ a :: after ∧ TookOver s s' before ∧
      s' = { s with methods := s'.methods } ∧
      (∃ fault position, e = ⟨.invalidOverride a.name fault, position⟩) ∧
      (inheritMethods parentMap).run s' =
        .error ((before.findSome? s.retakenError?).getD e) s' := by
  have hsort : Method.bySlot parentMap.values = inherited := hparent.sort_eq
  rw [inheritMethods, hsort] at hrun ⊢
  obtain ⟨hfull, hloop⟩ := run_numbered_eq_error.1 hrun
  obtain ⟨before, a, after, s₁, rfl, hbefore, ha⟩ := run_forM_eq_error hloop
  have hnodup := hparent.nodup
  rw [List.map_append, List.map_cons] at hnodup
  have hbeforeNodup := (List.nodup_append.1 hnodup).1
  obtain ⟨hfaultless, hs₁⟩ := (forM_inheritMethod_eq_ok hbeforeNodup fun _ _ => rfl).1 hbefore
  obtain ⟨rfl, m, fault, hget, rfl⟩ := of_inheritMethod_error ha
  have hs' : s' = { s with methods := adopted s.methods before } := hs₁
  have htook : TookOver s s' before :=
    hs' ▸ tookOver_adopted hown howner hbeforeNodup hfaultless
  -- the method that clashes is the struct's own: nothing of its name has been taken over
  have hout : a.name ∉ before.map Method.name := fun hin =>
    (List.nodup_append.1 hnodup).2.2 a.name hin a.name List.mem_cons_self rfl
  rw [hs'] at hget
  have hname : m.name = a.name := hown.name_eq ((get?_adopted_of_not_mem hout).symm.trans hget)
  refine ⟨before, a, after, rfl, htook, by rw [hs'], ⟨fault, m.token.position, by rw [hname]⟩, ?_⟩
  exact run_numbered_eq_error.2
    ⟨hfull, run_forM_stopped (fun b hb => htook.run_inheritMethod hb) ha⟩

section Renumbering

variable {taken new : List Method} (hparent : MethodListing parentMap inherited)
  (hlisting : MethodListing s.methods (taken ++ new))
  (htaken : taken.map Method.name = inherited.map Method.name)
  (hnew : ∀ m ∈ new, m.owner = some s.name)

include hparent hlisting htaken hnew

/-- In a merged struct, the methods above those of the parent are the new ones. -/
theorem newMethods_eq_of_listing : s.newMethods parentMap = new := by
  have hnodup := hlisting.nodup
  rw [List.map_append, List.nodup_append] at hnodup
  have hdrop : taken.filter (fun m => m.owner == some s.name && !parentMap.contains m.name) =
      [] := by
    rw [List.filter_eq_nil_iff]
    intro m hm
    have hin : parentMap.contains m.name = true :=
      hparent.contains_iff.2 (htaken ▸ List.mem_map_of_mem hm)
    simp [hin]
  have hkeep : new.filter (fun m => m.owner == some s.name && !parentMap.contains m.name) =
      new := by
    rw [List.filter_eq_self]
    intro m hm
    have hout : parentMap.contains m.name = false := by
      rw [NameMap.contains_eq_false_iff, hparent.get?_eq_none_iff, ← htaken]
      exact fun hin => hnodup.2.2 m.name hin m.name (List.mem_map_of_mem hm) rfl
    simp [hnew m hm, hout]
  refine sortBySlot_eq_of_perm ?_ (List.pairwise_append.1 hlisting.pairwise_slot).2.1
  refine (hlisting.perm.filter _).trans (.of_eq ?_)
  rw [List.filter_append, hdrop, hkeep, List.nil_append]

/-- They have their final slots, so they are not moved again. -/
theorem renumberMethods_eq_self (hnext : s.nextMethodSlot = (taken ++ new).length) :
    s.renumberMethods parentMap = s := by
  have hlength : inherited.length = taken.length := by
    rw [← List.length_map Method.name, ← htaken, List.length_map]
  have hmethods : (new.zipIdx taken.length).foldl
      (fun methods p => methods.insert p.1.name { p.1 with slot := p.2 }) s.methods =
        s.methods := by
    refine NameMap.foldl_insert_eq_self (fun p : Method × Nat => p.1.name)
      (fun p => { p.1 with slot := p.2 }) fun p hp => ?_
    obtain ⟨m, slot⟩ := p
    obtain ⟨hle, hm⟩ := List.mk_mem_zipIdx_iff_le_and_getElem?_sub.1 hp
    have hslot : m.slot = slot := by
      refine hlisting.slots slot m ?_
      rwa [List.getElem?_append_right hle]
    have hmem : m ∈ taken ++ new := List.mem_append_right _ (List.mem_of_getElem? hm)
    rw [← hslot]
    exact hlisting.mem_iff.1 hmem
  rw [renumberMethods, newMethods_eq_of_listing hparent hlisting htaken hnew, hparent.size_eq,
    hlength]
  simp only [hmethods, hlisting.size_eq, ← hnext]

end Renumbering

/-- The methods that a struct declares and that override nothing, with their final slots. -/
def newSlots (inherited own : List Method) : List Method :=
  ((Method.added inherited own).zipIdx inherited.length).map fun p => { p.1 with slot := p.2 }

theorem owner_newSlots (howner : ∀ m ∈ own, m.owner = some s.name) {m : Method}
    (hm : m ∈ newSlots inherited own) : m.owner = some s.name := by
  obtain ⟨⟨b, slot⟩, hb, rfl⟩ := List.mem_map.1 hm
  exact howner b (List.mem_filter.1 (List.fst_mem_of_mem_zipIdx hb)).1

theorem tookOver_layout (hparent : MethodListing parentMap inherited)
    (hown : MethodListing s.methods own) (howner : ∀ m ∈ own, m.owner = some s.name)
    (hfaultless : ∀ a ∈ inherited, ∀ m ∈ own, m.name = a.name → overrideFault? m a = none)
    (hname : s'.name = s.name) (hlisting : MethodListing s'.methods (Method.layout inherited own)) :
    TookOver s s' inherited := by
  rw [layout_eq hparent hown] at hlisting
  refine ⟨hname, fun a ha => ?_, fun n m hn hget => ?_, fun a ha m hget => ?_⟩
  · have hmem := hlisting.mem_iff.1
      (List.mem_append_left _ (List.mem_map_of_mem (f := takenOver s.methods) ha))
    rwa [name_takenOver hown] at hmem
  · obtain ⟨hm, rfl⟩ := (hlisting.get?_iff n m).1 hget
    rcases List.mem_append.1 hm with hm | hm
    · obtain ⟨a, ha, rfl⟩ := List.mem_map.1 hm
      rw [name_takenOver hown] at hn
      exact absurd (List.mem_map_of_mem ha) hn
    · exact ⟨rfl, owner_newSlots howner hm⟩
  · obtain ⟨hm, hname⟩ := (hown.get?_iff _ m).1 hget
    exact hfaultless a ha m hm hname

/-- Methods that have been merged stay as they are when they are merged again, unless a static one
has been copied. -/
theorem run_inheritMethods_again (hparent : MethodListing parentMap inherited)
    (hown : MethodListing s.methods own) (howner : ∀ m ∈ own, m.owner = some s.name)
    (htook : TookOver s s' inherited)
    (hlisting : MethodListing s'.methods (Method.layout inherited own))
    (hnext : s'.nextMethodSlot = (Method.layout inherited own).length) :
    (inheritMethods parentMap).run s' = checked (inherited.findSome? s.retakenError?) s' := by
  have hsort : Method.bySlot parentMap.values = inherited := hparent.sort_eq
  rw [inheritMethods]
  by_cases hempty : parentMap.isEmpty = true
  · obtain rfl := hparent.isEmpty_iff.1 hempty
    rw [if_pos hempty]
    rfl
  rw [if_neg hempty, hsort, EStateM.run_bind,
    run_forM_checked fun a ha => htook.run_inheritMethod ha]
  cases inherited.findSome? s.retakenError? with
  | some e => rfl
  | none =>
    rw [layout_eq hparent hown] at hlisting hnext
    have hnames : (inherited.map (takenOver s.methods)).map Method.name =
        inherited.map Method.name := by
      rw [List.map_map]
      exact List.map_congr_left fun a _ => name_takenOver hown a
    have hsame := renumberMethods_eq_self hparent hlisting hnames
      (fun m hm => htook.name ▸ owner_newSlots howner hm) hnext
    show EStateM.Result.ok () (s'.renumberMethods parentMap) = .ok () s'
    rw [hsame]

end Methods

/-! ## The attributes of the parent -/

section Attributes

variable {parentMap : NameMap Attr} {inherited own : List Attr} {a : Attr}

/-- An attribute that is there already cannot be taken over. -/
theorem run_inheritAttribute_of_some {b : Attr} (hget : s.attributes.get? a.name = some b) :
    (inheritAttribute a).run s =
      .error ⟨.repeated .inheritedAttribute b.name, b.token.position⟩ s := by
  simp only [inheritAttribute, EStateM.run_bind, EStateM.run_get, hget]
  rfl

/-- An attribute that fails to be taken over leaves the struct as it is. -/
theorem of_inheritAttribute_error (hrun : (inheritAttribute a).run s = .error e s') :
    s' = s ∧ ∃ b, s.attributes.get? a.name = some b ∧
      e = ⟨.repeated .inheritedAttribute b.name, b.token.position⟩ := by
  cases hget : s.attributes.get? a.name with
  | none =>
    simp only [inheritAttribute, EStateM.run_bind, EStateM.run_get, hget] at hrun
    cases hrun
  | some b =>
    rw [run_inheritAttribute_of_some hget] at hrun
    cases hrun
    exact ⟨rfl, b, rfl, rfl⟩

/-- Where the attributes of the parent fail to be taken over, those before the clash have been, and
the next time the first of them is in the way. -/
theorem inheritAttributes_error (hparent : AttrListing parentMap inherited)
    (hown : AttrListing s.attributes own)
    (hrun : (inheritAttributes parentMap).run s = .error e s') :
    ∃ before a after, inherited = before ++ a :: after ∧
      s' = { s with attributes := adoptedAttrs s.attributes before } ∧
      (∃ position, e = ⟨.repeated .inheritedAttribute a.name, position⟩) ∧
      (inheritAttributes parentMap).run s' =
        .error ((before.map Attr.copyError).head?.getD e) s' := by
  have hsort : Attr.bySlot parentMap.values = inherited := hparent.sort_eq
  rw [inheritAttributes, hsort] at hrun ⊢
  obtain ⟨hfull, hloop⟩ := run_numbered_eq_error.1 hrun
  obtain ⟨before, a, after, s₁, rfl, hbefore, ha⟩ := run_forM_eq_error hloop
  have hnodup := hparent.nodup
  rw [List.map_append, List.map_cons] at hnodup
  have hbeforeNodup := (List.nodup_append.1 hnodup).1
  obtain ⟨_, hs₁⟩ := (forM_inheritAttribute_eq_ok hbeforeNodup).1 hbefore
  obtain ⟨rfl, b, hget, rfl⟩ := of_inheritAttribute_error ha
  have hs' : s' = { s with attributes := adoptedAttrs s.attributes before } := hs₁
  -- the attribute that clashes is the struct's own: nothing of its name has been taken over
  have hout : a.name ∉ before.map Attr.name := fun hin =>
    (List.nodup_append.1 hnodup).2.2 a.name hin a.name List.mem_cons_self rfl
  rw [hs'] at hget
  have hname : b.name = a.name :=
    hown.name_eq ((get?_adoptedAttrs_of_not_mem hout).symm.trans hget)
  refine ⟨before, a, after, rfl, hs', ⟨b.token.position, by rw [hname]⟩, ?_⟩
  have hagain : ∀ c ∈ before, (inheritAttribute c).run s' = checked (some c.copyError) s' := by
    intro c hc
    refine run_inheritAttribute_of_some (b := c.copied) ?_
    rw [hs']
    exact get?_adoptedAttrs_of_mem hbeforeNodup hc
  have hhead : (before.map Attr.copyError).head? = before.findSome? fun c => some c.copyError := by
    cases before <;> rfl
  rw [hhead]
  exact run_numbered_eq_error.2 ⟨hfull, run_forM_stopped hagain ha⟩

/-- The marked attributes are copies of those that have been taken over. -/
theorem copiedAttributes_eq {l : List Attr} (hnodup : (l.map Attr.name).Nodup)
    (hslots : l.Pairwise fun a b => a.slot < b.slot) (hown : AttrListing s.attributes own)
    (hunmarked : ∀ a ∈ own, a.inherited = false)
    (hattributes : s'.attributes = adoptedAttrs s.attributes l) :
    s'.copiedAttributes = l.map Attr.copied := by
  have hout : ∀ n a, n ∉ l.map Attr.name → s'.attributes.get? n = some a →
      a.name = n ∧ a.inherited = false := by
    intro n a hn hget
    rw [hattributes, get?_adoptedAttrs_of_not_mem hn] at hget
    exact ⟨hown.name_eq hget, hunmarked a ((hown.get?_iff n a).1 hget).1⟩
  have hin : ∀ a ∈ l, s'.attributes.get? a.name = some a.copied := by
    rw [hattributes]
    exact fun a ha => get?_adoptedAttrs_of_mem hnodup ha
  have hkeyed : s'.attributes.KeyedBy Attr.name := by
    intro n a hget
    by_cases hn : n ∈ l.map Attr.name
    · obtain ⟨b, hb, rfl⟩ := List.mem_map.1 hn
      cases (hin b hb).symm.trans hget
      rfl
    · exact (hout n a hn hget).1
  refine sortBySlot_filter_values hkeyed (List.pairwise_map.2 hslots) fun a => ?_
  constructor
  · rintro ⟨⟨n, hget⟩, hcopied⟩
    by_cases hn : n ∈ l.map Attr.name
    · obtain ⟨b, hb, rfl⟩ := List.mem_map.1 hn
      cases (hin b hb).symm.trans hget
      exact List.mem_map_of_mem hb
    · rw [(hout n a hn hget).2] at hcopied
      cases hcopied
  · intro ha
    obtain ⟨b, hb, rfl⟩ := List.mem_map.1 ha
    exact ⟨⟨b.name, hin b hb⟩, rfl⟩

end Attributes

/-! ## The whole merge -/

theorem mem_copyErrors {l : List Method} {e : SemanticError}
    (h : e ∈ l.filterMap Method.copyError?) :
    ∃ m ∈ l, ∃ fault position, e = ⟨.invalidOverride m.name fault, position⟩ := by
  obtain ⟨m, hm, herror⟩ := List.mem_filterMap.1 h
  rw [Method.copyError?] at herror
  split at herror
  · cases herror
    exact ⟨m, hm, _, _, rfl⟩
  · cases herror

/-- The members of a struct `s` and those of its parent `p`, which `s` has not yet taken over. -/
structure Joins (p s : Struct) (inheritedMethods ownMethods : List Method)
    (inheritedAttrs ownAttrs : List Attr) : Prop where
  parent : p.Laid inheritedMethods inheritedAttrs
  own : s.Laid ownMethods ownAttrs
  ownMethods : ∀ m ∈ ownMethods, m.owner = some s.name
  ownAttributes : ∀ a ∈ ownAttrs, a.inherited = false
  methods : ∀ a ∈ inheritedMethods, a.owner ≠ some s.name

namespace Joins

variable {inheritedMethods ownMethods : List Method} {inheritedAttrs ownAttrs : List Attr}

/-- After the methods have clashed, some of them have been copied, and no attribute has. -/
theorem again_of_methods (h : Joins p s inheritedMethods ownMethods inheritedAttrs ownAttrs)
    (hrun : (inheritMethods p.methods).run s = .error e s') :
    (inheritFrom p).run s' = .error (s'.rejectedCopies.head?.getD e) s' ∧
      e ∉ s'.rejectedCopies ∧ s'.consolidated = s.consolidated := by
  obtain ⟨before, a, after, rfl, htook, hs', ⟨fault, position, he⟩, hagain⟩ :=
    inheritMethods_error h.parent.methods h.own.methods h.ownMethods hrun
  have hnodup := h.parent.methods.nodup
  rw [List.map_append, List.map_cons, List.nodup_append] at hnodup
  have hmethods := htook.copiedMethods_eq h.own.methods h.ownMethods
    (fun b hb => h.methods b (List.mem_append_left _ hb))
    (List.pairwise_append.1 h.parent.methods.pairwise_slot).1
  have hattributes : s'.copiedAttributes = [] := copiedAttributes_eq (l := []) List.nodup_nil .nil
    h.own.attributes h.ownAttributes (congrArg Struct.attributes hs' :)
  have hcopies : s'.rejectedCopies = s'.copiedMethods.filterMap Method.copyError? := by
    rw [rejectedCopies, hattributes, List.map_nil, List.append_nil]
  refine ⟨?_, fun hmem => ?_, (congrArg Struct.consolidated hs' :)⟩
  · rw [hcopies, TookOver.head?_copyErrors hmethods]
    exact run_bind_eq_error.2 (.inl hagain)
  · obtain ⟨m, hm, fault', position', heq⟩ := mem_copyErrors (hcopies ▸ hmem)
    rw [hmethods] at hm
    injection heq.symm.trans he with hcause
    injection hcause with hname
    exact hnodup.2.2 m.name (List.mem_map_of_mem (List.mem_filter.1 hm).1) a.name
      List.mem_cons_self hname

/-- After the attributes have clashed, some of them have been copied, and the methods have been
merged. -/
theorem again_of_attributes (h : Joins p s inheritedMethods ownMethods inheritedAttrs ownAttrs)
    {s₁ : Struct} (hrun₁ : (inheritMethods p.methods).run s = .ok () s₁)
    (hrun : (inheritAttributes p.attributes).run s₁ = .error e s') :
    (inheritFrom p).run s' = .error (s'.rejectedCopies.head?.getD e) s' ∧
      e ∉ s'.rejectedCopies ∧ s'.consolidated = s.consolidated := by
  obtain ⟨hfaultless, methods, hlisting, rfl⟩ := (inheritMethods_eq_ok h.parent.methods
    h.own.methods h.ownMethods h.own.nextMethodSlot).1 hrun₁
  obtain ⟨before, a, after, rfl, hs', ⟨position, he⟩, hagain⟩ :=
    inheritAttributes_error (s := { s with methods, nextMethodSlot := _ }) h.parent.attributes
      h.own.attributes hrun
  have hnodup := h.parent.attributes.nodup
  rw [List.map_append, List.map_cons, List.nodup_append] at hnodup
  have hname : s'.name = s.name := by
    rw [hs']
    rfl
  have hlisting' : MethodListing s'.methods (Method.layout inheritedMethods ownMethods) := by
    rw [hs']
    exact hlisting
  have htook := tookOver_layout h.parent.methods h.own.methods h.ownMethods hfaultless hname
    hlisting'
  have hmethodsAgain := run_inheritMethods_again h.parent.methods h.own.methods h.ownMethods htook
    hlisting' (by rw [hs'])
  have hmethods := htook.copiedMethods_eq h.own.methods h.ownMethods h.methods
    h.parent.methods.pairwise_slot
  have hattributes : s'.copiedAttributes = before.map Attr.copied := copiedAttributes_eq hnodup.1
    (List.pairwise_append.1 h.parent.attributes.pairwise_slot).1 h.own.attributes h.ownAttributes
    (by rw [hs'])
  have herrors : s'.copiedAttributes.map Attr.copyError = before.map Attr.copyError := by
    rw [hattributes, List.map_map]
    rfl
  rw [rejectedCopies, herrors, List.head?_append, Option.getD_or, List.mem_append, not_or]
  refine ⟨?_, ⟨fun hmem => ?_, fun hmem => ?_⟩, (congrArg Struct.consolidated hs' :)⟩
  · rw [TookOver.head?_copyErrors hmethods]
    exact run_bind_checked hmethodsAgain (run_bind_eq_error.2 (.inl hagain))
  · obtain ⟨m, _, _, _, heq⟩ := mem_copyErrors hmem
    cases he.symm.trans heq
  · obtain ⟨b, hb, heq⟩ := List.mem_map.1 hmem
    injection heq.trans he with hcause
    injection hcause with _ hclash
    exact hnodup.2.2 b.name (List.mem_map_of_mem hb) a.name List.mem_cons_self hclash

/-- A merge that has failed changes nothing when it is tried again, and it fails with the first
error of `rejectedCopies`, or if there is none with the error that it had.  That error is none of
those about copies. -/
theorem run_inheritFrom_again
    (h : Joins p s inheritedMethods ownMethods inheritedAttrs ownAttrs)
    (hrun : (inheritFrom p).run s = .error e s') :
    (inheritFrom p).run s' = .error (s'.rejectedCopies.head?.getD e) s' ∧
      e ∉ s'.rejectedCopies ∧ s'.consolidated = s.consolidated := by
  rcases run_bind_eq_error.1 hrun with hmethods | ⟨_, s₁, hmethods, hrest⟩
  · exact h.again_of_methods hmethods
  · -- the mark at the end does not fail, so it is the attributes that have clashed
    have hattributes := (run_bind_eq_error.1 hrest).resolve_right (by rintro ⟨_, _, _, ⟨⟩⟩)
    exact h.again_of_attributes hmethods hattributes

end Joins

end Struct

end StructLang
