import StructLang.Proofs.BodyMethods
import StructLang.Proofs.Operations
import StructLang.Proofs.Varying
import StructLang.Snapshot.Table

/-!
# Orders of enumeration

A map from names need not list its entries by name.  Here the structs of a table, the members of a
struct and the locals of a method are listed in any order, chosen anew at every place where they are
listed, and the lists are sorted afterwards: structs by name, members in slot order for a reader, and
by slot alone within a merge, where members of one slot stay in the order in which they came.

* `Struct.inheritFromInAnyOrder`, `SymbolTable.consolidateInAnyOrder` and
  `Program.overviewInAnyOrder` are the merge, the completion and the analysis with such lists.
* `Program.mayShow_iff`: none of the choices shows, neither in the table, the bodies, the snapshot
  and the layouts of an accepted program nor in the error of another one.

By the time a struct is merged, no two members of its parent share a slot, and its own members are
numbered from zero.  So sorting by slot alone leaves no choice (`settles_inheritFrom`).  That this
holds at every step of the walk, also of a walk that fails later, is the invariant `Walk`.
-/

namespace StructLang

open Varying

/-! ## Merging -/

namespace Struct

/-- Those of the given methods that the struct declares and that override none of the inherited
ones. -/
def newAmong (s : Struct) (inherited : NameMap Method) (methods : List Method) : List Method :=
  methods.filter fun m => m.owner == some s.name && !inherited.contains m.name

/-- The struct with the given methods numbered from the end of the inherited slots. -/
def numberMethods (s : Struct) (inherited : NameMap Method) (methods : List Method) : Struct :=
  let methods := (methods.zipIdx inherited.size).foldl
    (fun methods (m, slot) => methods.insert m.name { m with slot := slot }) s.methods
  { s with methods := methods, nextMethodSlot := methods.size }

/-- The struct with the given attributes moved above the inherited slots. -/
def moveAttributes (s : Struct) (inherited : NameMap Attr) (attributes : List Attr) : Struct :=
  let attributes := attributes.foldl
    (fun attributes a => attributes.insert a.name { a with slot := a.slot + inherited.size })
    s.attributes
  { s with attributes := attributes, nextAttributeSlot := attributes.size }

/-- Takes over the methods of the parent. -/
def inheritMethodsInAnyOrder (inherited : NameMap Method) : Varying SemanticError Struct Unit := do
  unless inherited.isEmpty do
    let ancestors ← anyOrder inherited.values
    of ((sortByKey Method.slot ancestors).forM inheritMethod)
    let s ← of get
    let methods ← anyOrder s.methods.values
    of (set (s.numberMethods inherited (sortByKey Method.slot (s.newAmong inherited methods))))

/-- Takes over the attributes of the parent. -/
def inheritAttributesInAnyOrder (inherited : NameMap Attr) : Varying SemanticError Struct Unit := do
  unless inherited.isEmpty do
    let ancestors ← anyOrder inherited.values
    of ((sortByKey Attr.slot ancestors).forM inheritAttribute)
    let s ← of get
    let attributes ← anyOrder s.attributes.values
    of (set (s.moveAttributes inherited (attributes.filter (!·.inherited))))

/-- Takes over the members of the parent. -/
def inheritFromInAnyOrder (parent : Struct) : Varying SemanticError Struct Unit := do
  inheritMethodsInAnyOrder parent.methods
  inheritAttributesInAnyOrder parent.attributes
  of (modify fun s => { s with consolidated := true })

variable {s : Struct}

/-- The own methods that override nothing are numbered in one way, since no two of them share a
slot. -/
theorem numberMethods_eq {parentMap ownMap : NameMap Method} {inherited own methods : List Method}
    (hparent : MethodListing parentMap inherited) (hown : MethodListing ownMap own)
    (howner : ∀ m ∈ own, m.owner = some s.name) (hmethods : s.methods = adopted ownMap inherited)
    (hperm : methods.Perm s.methods.values) :
    s.numberMethods parentMap (sortByKey Method.slot (s.newAmong parentMap methods)) =
      s.renumberMethods parentMap := by
  have hnew : s.newMethods parentMap = Method.added inherited own :=
    newMethods_eq hparent hown howner hmethods
  have hsorted : (s.newMethods parentMap).Perm (s.newAmong parentMap s.methods.values) :=
    sortBySlot_perm _ _
  have hadded : (s.newAmong parentMap methods).Perm (Method.added inherited own) :=
    (hperm.filter _).trans (hsorted.symm.trans (.of_eq hnew))
  rw [sortByKey_eq_of_perm hadded (hown.pairwise_slot.filter _), ← hnew]
  rfl

theorem settles_inheritMethods {parentMap : NameMap Method} {inherited own : List Method}
    (hparent : MethodListing parentMap inherited) (hown : MethodListing s.methods own)
    (howner : ∀ m ∈ own, m.owner = some s.name) :
    Settles (inheritMethodsInAnyOrder parentMap) (inheritMethods parentMap) s := by
  have hlist : Method.bySlot parentMap.values = inherited := hparent.sort_eq
  unfold inheritMethodsInAnyOrder inheritMethods
  cases parentMap.isEmpty with
  | true => exact settles_pure () s
  | false =>
    refine .anyOrder fun ancestors hancestors => ?_
    rw [sortByKey_eq_of_perm (hancestors.trans hparent.perm) hparent.pairwise_slot, hlist]
    refine (settles_of _ s).bind fun _ s₁ hrun => .get_bind (.anyOrder fun methods hperm => ?_)
    obtain ⟨_, hs₁⟩ := (forM_inheritMethod_eq_ok hparent.nodup fun _ _ => rfl).1 hrun
    have hmethods : s₁.methods = adopted s.methods inherited := by
      rw [hs₁]
      rfl
    rw [numberMethods_eq hparent hown (hs₁ ▸ howner) hmethods hperm]
    exact settles_of (modify (·.renumberMethods parentMap)) s₁

/-- The own attributes are moved in one way, since no two attributes share a name. -/
theorem moveAttributes_eq {parentMap : NameMap Attr} {attributes : List Attr}
    (hkeyed : s.attributes.KeyedBy Attr.name) (hperm : attributes.Perm s.attributes.values) :
    s.moveAttributes parentMap (attributes.filter (!·.inherited)) =
      s.renumberAttributes parentMap := by
  have hnodup : ((s.attributes.values.filter (!·.inherited)).map Attr.name).Nodup :=
    List.pairwise_map.2 ((hkeyed.pairwise_values.filter _).imp Std.ne_of_lt)
  have hmoved := NameMap.foldl_insert_perm Attr.name
    (fun a => { a with slot := a.slot + parentMap.size }) (hperm.filter _) hnodup s.attributes
  rw [moveAttributes, hmoved]
  rfl

theorem settles_inheritAttributes {parentMap : NameMap Attr} {inherited own : List Attr}
    (hparent : AttrListing parentMap inherited) (hown : AttrListing s.attributes own) :
    Settles (inheritAttributesInAnyOrder parentMap) (inheritAttributes parentMap) s := by
  have hlist : Attr.bySlot parentMap.values = inherited := hparent.sort_eq
  unfold inheritAttributesInAnyOrder inheritAttributes
  cases parentMap.isEmpty with
  | true => exact settles_pure () s
  | false =>
    refine .anyOrder fun ancestors hancestors => ?_
    rw [sortByKey_eq_of_perm (hancestors.trans hparent.perm) hparent.pairwise_slot, hlist]
    refine (settles_of _ s).bind fun _ s₁ hrun => .get_bind (.anyOrder fun attributes hperm => ?_)
    obtain ⟨_, hs₁⟩ := (forM_inheritAttribute_eq_ok hparent.nodup).1 hrun
    have hkeyed : s₁.attributes.KeyedBy Attr.name := by
      rw [hs₁]
      exact fun _ _ => name_adoptedAttrs hparent hown
    rw [moveAttributes_eq hkeyed hperm]
    exact settles_of (modify (·.renumberAttributes parentMap)) s₁

/-- The members of a parent are taken over in one way, if both structs have their members
numbered. -/
theorem settles_inheritFrom {p : Struct} {inheritedMethods ownMethods : List Method}
    {inheritedAttrs ownAttrs : List Attr} (hparent : p.Laid inheritedMethods inheritedAttrs)
    (hown : s.Laid ownMethods ownAttrs) (hmethods : ∀ m ∈ ownMethods, m.owner = some s.name) :
    Settles (inheritFromInAnyOrder p) (inheritFrom p) s := by
  refine (settles_inheritMethods hparent.methods hown.methods hmethods).bind fun _ s₁ hrun => ?_
  obtain ⟨_, _, _, hs₁⟩ :=
    (inheritMethods_eq_ok hparent.methods hown.methods hmethods hown.nextMethodSlot).1 hrun
  have hattributes : AttrListing s₁.attributes ownAttrs := by
    rw [hs₁]
    exact hown.attributes
  exact (settles_inheritAttributes hparent.attributes hattributes).bind fun _ s₂ _ =>
    settles_of _ s₂

end Struct

/-! ## Completing a table -/

namespace SymbolTable

/-- The table after a change of one of its structs.  When the change fails, what has been changed
stays. -/
def withStruct (t : SymbolTable) (name : String) :
    EStateM.Result SemanticError Struct Unit → EStateM.Result SemanticError SymbolTable Unit
  | .ok _ s => .ok () { t with structs := t.structs.insert name s }
  | .error e s => .error e { t with structs := t.structs.insert name s }

/-- Merges the members of a parent into one of its children, unless that was done before. -/
def mergeChildInAnyOrder (parent : Struct) (child : String) :
    Varying SemanticError SymbolTable Unit := fun t r =>
  match t.struct? child with
  | none => r = .ok () t
  | some s =>
    if s.consolidated then r = .ok () t
    else ∃ merged, parent.inheritFromInAnyOrder s merged ∧ r = t.withStruct child merged

/-- Walks over the tree from the structs of a stack. -/
def mergeFromInAnyOrder : Nat → List String → Varying SemanticError SymbolTable Unit
  | 0, _ | _, [] => pure ()
  | steps + 1, name :: stack => do
    let t ← of get
    match t.struct? name with
    | none => mergeFromInAnyOrder steps stack
    | some s =>
      s.children.names.reverse.forM (mergeChildInAnyOrder s)
      mergeFromInAnyOrder steps (s.children.names ++ stack)

/-- The first of the given structs whose declaration lacks a part. -/
def incompleteAmong (structs : List Struct) : Option SemanticError :=
  (structs.filter (!·.builtin)).findSome? fun s =>
    s.missingPart?.map fun part => ⟨.missing s.name part, s.token.position⟩

/-- Completes the table. -/
def consolidateInAnyOrder : Varying SemanticError SymbolTable Unit := do
  let t ← of get
  unless t.consolidated do
    match t.undeclared? with
    | some e => of (throw e)
    | none =>
      let structs ← anyOrder t.structs.values
      match incompleteAmong (sortByKey Struct.name structs) with
      | some e => of (throw e)
      | none =>
        mergeFromInAnyOrder t.structs.size [Builtin.root]
        of (modify fun t => { t with consolidated := true })

variable {t u : SymbolTable} {c p n : String} {s sp : Struct}

theorem settles_mergeChild (hs : u.struct? c = some s)
    (hmerge : s.consolidated = false →
      Settles (Struct.inheritFromInAnyOrder sp) (Struct.inheritFrom sp) s) :
    Settles (mergeChildInAnyOrder sp c) (mergeChild sp c) u := by
  intro r
  rw [run_mergeChild hs]
  cases hcomplete : s.consolidated with
  | true => simp only [mergeChildInAnyOrder, hs, hcomplete, if_true]
  | false =>
    have hrun : ∀ merged, sp.inheritFromInAnyOrder s merged ↔ _ := hmerge hcomplete
    simp only [mergeChildInAnyOrder, hs, hcomplete, Bool.false_eq_true, if_false, hrun,
      exists_eq_left]
    cases (Struct.inheritFrom sp).run s <;> rfl

namespace MergedOn

variable {names : List String}

/-- A child that has not been merged has its own members only, and its parent is merged. -/
theorem settles_mergeChild (hmerged : t.MergedOn names u) (h : t.Sound)
    (hrooted : ∀ n, t.contains n = true → t.Rooted n) (hparent : t.Merged p sp)
    (hextends : t.Extends c p) (hc : c ∉ names) :
    Settles (mergeChildInAnyOrder sp c) (SymbolTable.mergeChild sp c) u := by
  obtain ⟨s, hs⟩ := contains_iff_struct?.1 hextends.contains
  refine SymbolTable.settles_mergeChild ((hmerged.other c (.inl hc)).trans hs) fun hincomplete => ?_
  have hopen := h.hierarchy.open_of_extends h.registry hextends
  obtain ⟨sp₀, hsp₀⟩ := hparent.exists_struct?
  have hlaid := (hparent.mergedFrom h hrooted (hopen.imp id And.left) hsp₀).laid
  have huser : Builtin.structs.contains c = false := by
    by_contra hbuiltin
    have hcomplete :=
      h.registry.consolidated_of_builtin hextends (Bool.of_not_eq_false hbuiltin) hs
    rw [hcomplete] at hincomplete
    cases hincomplete
  obtain ⟨ms, as, hown⟩ := h.contents.own c s huser hs
  exact Struct.settles_inheritFrom hlaid hown.laid fun m hm => (hown.methods m hm).1

theorem settles_mergeChildren (hmerged : t.MergedOn names u) (h : t.Sound)
    (hrooted : ∀ n, t.contains n = true → t.Rooted n) (hparent : t.Merged p sp)
    {cs : List String} (hnodup : cs.Nodup) (hextends : ∀ c ∈ cs, t.Extends c p)
    (hnew : ∀ c ∈ cs, c ∉ names) :
    Settles (cs.forM (mergeChildInAnyOrder sp)) (cs.forM (SymbolTable.mergeChild sp)) u := by
  induction cs generalizing u names with
  | nil => exact settles_pure () u
  | cons c cs ih =>
    obtain ⟨hc, hcs⟩ := List.nodup_cons.1 hnodup
    obtain ⟨hextendsC, hextendsCs⟩ := List.forall_mem_cons.1 hextends
    obtain ⟨hnewC, hnewCs⟩ := List.forall_mem_cons.1 hnew
    refine (hmerged.settles_mergeChild h hrooted hparent hextendsC hnewC).bind fun _ u₁ hrun => ?_
    have hnext := (hmerged.mergeChild h.registry hparent hextendsC hnewC).1 u₁ hrun
    refine ih hnext hcs hextendsCs fun d hd hmem => ?_
    rcases List.mem_cons.1 hmem with rfl | hmem
    · exact hc hd
    · exact hnewCs d hd hmem

end MergedOn

/-- Every step of the walk is settled, whether the walk succeeds or not. -/
theorem settles_mergeFrom (h : t.Sound) (hrooted : ∀ n, t.contains n = true → t.Rooted n)
    (steps : Nat) {visited stack : List String} (hwalk : t.Walk visited stack u) :
    Settles (mergeFromInAnyOrder steps stack) (mergeFrom steps stack) u := by
  induction steps generalizing visited stack u with
  | zero => exact settles_pure () u
  | succ steps ih =>
    cases stack with
    | nil => exact settles_pure () u
    | cons n stack =>
      obtain ⟨s, hs, hmerged⟩ := hwalk.top
      have hchildren : ∀ c, c ∈ s.children.names ↔ t.Extends c n := fun c =>
        NameMap.mem_names_iff.trans (hmerged.children_iff h hrooted)
      have hnodup := List.nodup_reverse.2 s.children.nodup_names
      have hextends : ∀ c ∈ s.children.names.reverse, t.Extends c n := fun c hc =>
        (hchildren c).1 (List.mem_reverse.1 hc)
      have hnew : ∀ c ∈ s.children.names.reverse, c ∉ visited ++ n :: stack := fun c hc =>
        hwalk.not_seen (hextends c hc)
      refine Settles.congr ?_ (run_mergeFrom_succ hs)
      refine .get_bind ?_
      rw [hs]
      refine (hwalk.merged.settles_mergeChildren h hrooted hmerged hnodup hextends hnew).bind
        fun _ u₁ hrun => ?_
      have hnext := (hwalk.merged.mergeChildren h.registry hmerged hnodup hextends hnew).1 u₁ hrun
      exact ih (hwalk.step s.children.nodup_names hchildren (hnext.congr fun m => by simp))

theorem incompleteAmong_eq (h : t.Keyed) {structs : List Struct}
    (hperm : structs.Perm t.structs.values) :
    incompleteAmong (sortByKey Struct.name structs) = t.incomplete? := by
  rw [sortByKey_eq_of_perm hperm h.pairwise_values]
  rfl

/-- A table of declarations is completed in one way. -/
theorem settles_consolidate (h : t.Sound) : Settles consolidateInAnyOrder consolidate t := by
  have hkeyed : t.Keyed := fun _ _ => h.registry.name_eq
  refine .get_bind ?_
  cases hfirst : t.consolidated with
  | true =>
    refine (settles_pure () t).congr ?_
    rw [run_consolidate_eq, hfirst]
    rfl
  | false =>
    cases hundeclared : t.undeclared? with
    | some e =>
      refine (settles_of (throw e) t).congr ?_
      rw [run_consolidate_eq, hfirst, hundeclared]
      rfl
    | none =>
      refine .anyOrder fun structs hperm => ?_
      rw [incompleteAmong_eq hkeyed hperm]
      cases hincomplete : t.incomplete? with
      | some e =>
        refine (settles_of (throw e) t).congr ?_
        rw [run_consolidate_eq, hfirst, hundeclared, hincomplete]
        rfl
      | none =>
        have hcomplete := complete_iff.2 ⟨hundeclared, hincomplete⟩
        refine Settles.congr ?_ (run_consolidate hfirst hcomplete)
        exact (settles_mergeFrom h (fun _ => hcomplete.rooted h) _ (.start h.registry)).bind
          fun _ u _ => settles_of _ u

end SymbolTable

/-! ## Snapshots and layouts -/

section Observations

variable {ε σ : Type}

/-- The snapshots of the local variables of a method. -/
def VariableSnapshot.localsInAnyOrder (m : Method) : Varying ε σ (List VariableSnapshot) := do
  let locals ← anyOrder m.locals.zipIdx
  return (sortByKey Prod.snd locals).map fun (b, slot) =>
    ⟨b.name, b.ty.text, m.scopeName, false, false, .ofNat slot⟩

/-- The snapshot of a method. -/
def MethodSnapshot.inAnyOrder (m : Method) : Varying ε σ MethodSnapshot := do
  let locals ← VariableSnapshot.localsInAnyOrder m
  return { MethodSnapshot.ofMethod m with locals }

/-- The snapshot of a struct, with its members in slot order. -/
def StructSnapshot.inAnyOrder (s : Struct) : Varying ε σ StructSnapshot := do
  let methods ← anyOrder s.methods.values
  let attributes ← anyOrder s.attributes.values
  let constructor ← s.constructor.mapM MethodSnapshot.inAnyOrder
  let methods ← (Method.bySlot methods).mapM MethodSnapshot.inAnyOrder
  let attributes := (Attr.bySlot attributes).map VariableSnapshot.ofAttr
  return { StructSnapshot.ofStruct s with constructor, methods, attributes }

/-- The snapshot of a table, with its structs by name. -/
def TableSnapshot.inAnyOrder (t : SymbolTable) : Varying ε σ TableSnapshot := do
  let structs ← anyOrder t.structs.values
  let structs ← (sortByKey Struct.name structs).mapM StructSnapshot.inAnyOrder
  let start ← t.start.mapM MethodSnapshot.inAnyOrder
  return { structs, start }

/-- The layout of a struct. -/
def DispatchTable.inAnyOrder (s : Struct) : Varying ε σ DispatchTable := do
  let methods ← anyOrder s.methods.values
  let attributes ← anyOrder s.attributes.values
  return .ofMembers s.name s.parent s.constructor.isSome
    ((Method.bySlot methods).map fun m => (⟨.ofNat m.slot, m.name, m.owner.getD s.name⟩, m.isStatic))
    ((Attr.bySlot attributes).map fun a => ⟨.ofNat a.slot, a.name, a.ty.text, a.owner⟩)

/-- The layouts of all structs by name. -/
def SymbolTable.layoutsInAnyOrder (t : SymbolTable) : Varying ε σ (List DispatchTable) := do
  let structs ← anyOrder t.structs.values
  (sortByKey Struct.name structs).mapM DispatchTable.inAnyOrder

variable {x : σ} {t : SymbolTable} {s : Struct}

theorem MethodSnapshot.settles (m : Method) :
    Settles (MethodSnapshot.inAnyOrder m : Varying ε σ _) (pure (.ofMethod m)) x := by
  have hslots : m.locals.zipIdx.Pairwise fun a b => a.2 < b.2 := by
    rw [← List.pairwise_map, List.zipIdx_map_snd]
    exact List.pairwise_lt_range'
  have hlocals : Settles (VariableSnapshot.localsInAnyOrder m : Varying ε σ _)
      (pure (VariableSnapshot.ofLocals m)) x := by
    refine .anyOrder fun locals hperm => ?_
    rw [sortByKey_eq_of_perm hperm hslots]
    exact settles_pure _ x
  exact hlocals.pure_bind (settles_pure _ x)

theorem Struct.Laid.bySlot_methods {ms : List Method} {as : List Attr} (h : s.Laid ms as)
    {methods : List Method} (hperm : methods.Perm s.methods.values) :
    Method.bySlot methods = s.methodsBySlot :=
  (sortBySlot_eq_of_perm (hperm.trans h.methods.perm) h.methods.pairwise_slot).trans
    h.methodsBySlot_eq.symm

theorem Struct.Laid.bySlot_attributes {ms : List Method} {as : List Attr} (h : s.Laid ms as)
    {attributes : List Attr} (hperm : attributes.Perm s.attributes.values) :
    Attr.bySlot attributes = s.attributesBySlot :=
  (sortBySlot_eq_of_perm (hperm.trans h.attributes.perm) h.attributes.pairwise_slot).trans
    h.attributesBySlot_eq.symm

theorem StructSnapshot.settles {ms : List Method} {as : List Attr} (h : s.Laid ms as) :
    Settles (StructSnapshot.inAnyOrder s : Varying ε σ _) (pure (.ofStruct s)) x := by
  refine .anyOrder fun methods hmethods => .anyOrder fun attributes hattributes => ?_
  rw [h.bySlot_methods hmethods, h.bySlot_attributes hattributes]
  refine (Settles.optionMapM MethodSnapshot.settles s.constructor).pure_bind ?_
  refine (Settles.mapM fun m _ => MethodSnapshot.settles m).pure_bind ?_
  exact settles_pure _ x

theorem DispatchTable.settles {ms : List Method} {as : List Attr} (h : s.Laid ms as) :
    Settles (DispatchTable.inAnyOrder s : Varying ε σ _) (pure (.ofStruct s)) x := by
  refine .anyOrder fun methods hmethods => .anyOrder fun attributes hattributes => ?_
  rw [h.bySlot_methods hmethods, h.bySlot_attributes hattributes]
  exact settles_pure _ x

/-- Every struct of a table is registered under its name, and has its members numbered. -/
structure SymbolTable.Numbered (t : SymbolTable) : Prop where
  keyed : t.Keyed
  laid : ∀ s ∈ t.structs.values, ∃ ms as, s.Laid ms as

theorem SymbolTable.Numbered.sort_eq (h : t.Numbered) {structs : List Struct}
    (hperm : structs.Perm t.structs.values) : sortByKey Struct.name structs = t.structs.values :=
  sortByKey_eq_of_perm hperm h.keyed.pairwise_values

theorem TableSnapshot.settles (h : t.Numbered) :
    Settles (TableSnapshot.inAnyOrder t : Varying ε σ _) (pure (.ofTable t)) x := by
  refine .anyOrder fun structs hperm => ?_
  rw [h.sort_eq hperm]
  have hstructs : ∀ s ∈ t.structs.values,
      Settles (StructSnapshot.inAnyOrder s : Varying ε σ _) (pure (.ofStruct s)) x := by
    intro s hs
    obtain ⟨ms, as, hlaid⟩ := h.laid s hs
    exact StructSnapshot.settles hlaid
  refine (Settles.mapM hstructs).pure_bind ?_
  exact (Settles.optionMapM MethodSnapshot.settles t.start).pure_bind (settles_pure _ x)

theorem SymbolTable.settles_layouts (h : t.Numbered) :
    Settles (t.layoutsInAnyOrder : Varying ε σ _)
      (pure (t.structs.values.map DispatchTable.ofStruct)) x := by
  refine .anyOrder fun structs hperm => ?_
  rw [h.sort_eq hperm]
  refine Settles.mapM fun s hs => ?_
  obtain ⟨ms, as, hlaid⟩ := h.laid s hs
  exact DispatchTable.settles hlaid

end Observations

/-! ## Analysing a program -/

/-- What there is to see of an accepted program: the table and the checked bodies, the snapshot of
the table, and the layouts of its structs by name. -/
structure Overview where
  analysis : Analysis
  snapshot : TableSnapshot
  layouts : List DispatchTable

/-- The overview of an analysis. -/
def Overview.ofAnalysis (a : Analysis) : Overview where
  analysis := a
  snapshot := .ofTable a.table
  layouts := a.table.structs.values.map .ofStruct

namespace Program

open SymbolTable

/-- Declares all items and completes the table. -/
def declareInAnyOrder (p : Program) : Varying SemanticError SymbolTable Unit := do
  of (p.items.forM Item.declare)
  consolidateInAnyOrder

/-- Analyses a program and gives its overview. -/
def overviewInAnyOrder (p : Program) : Varying SemanticError SymbolTable Overview := do
  p.declareInAnyOrder
  let t ← of get
  let (bodies, created) ← of (ofExcept ((p.bodies.mapM (Body.check t)).run .empty))
  let snapshot ← TableSnapshot.inAnyOrder (t.markCreated created)
  let layouts ← (t.markCreated created).layoutsInAnyOrder
  return { analysis := ⟨t.markCreated created, bodies⟩, snapshot, layouts }

/-- What the analysis of a program may show: an overview or an error. -/
def MayShow (p : Program) (r : Except SemanticError Overview) : Prop :=
  p.overviewInAnyOrder.Gives new r

variable {p : Program} {t : SymbolTable}

theorem settles_declare (p : Program) : Settles p.declareInAnyOrder p.declare new :=
  (settles_of _ new).bind fun _ _ hrun => settles_consolidate (represents_of_run hrun).sound

theorem numbered_markCreated (hrun : p.declare.run new = .ok () t) (created : NameSet) :
    (t.markCreated created).Numbered := by
  obtain ⟨operations, hmade⟩ := exists_made_of_performs
    (((performs_program p).of_ok hrun).trans (performs_markCreated t created))
  obtain ⟨u, _, _, hcompletion, _⟩ := completion_of_declare hrun
  refine ⟨hmade ▸ keyed_made operations, fun s hs => ?_⟩
  obtain ⟨n, hget⟩ := NameMap.mem_values_iff.1 hs
  rw [← struct?, struct?_markCreated] at hget
  obtain ⟨s₀, hs₀, rfl⟩ := Option.map_eq_some_iff.1 hget
  have hlaid := hcompletion.laid hs₀
  exact ⟨_, _, hlaid.methods, hlaid.attributes, hlaid.nextMethodSlot, hlaid.nextAttributeSlot⟩

/-- The analysis as one run over the table. -/
def overview (p : Program) : Declaring Overview := do
  p.declare
  let t ← get
  let (bodies, created) ← ofExcept ((p.bodies.mapM (Body.check t)).run .empty)
  return .ofAnalysis ⟨t.markCreated created, bodies⟩

theorem settles_overview (p : Program) : Settles p.overviewInAnyOrder p.overview new := by
  refine (settles_declare p).bind fun _ t hrun => ?_
  refine (settles_of get t).bind fun _ t' hget => ?_
  cases hget
  refine (settles_of _ t).bind fun checked t' _ => ?_
  have hnumbered := numbered_markCreated hrun checked.2
  exact (TableSnapshot.settles hnumbered).pure_bind
    ((settles_layouts hnumbered).pure_bind (settles_pure _ t'))

/-- The order in which maps are enumerated does not show.  Whatever orders are chosen, the analysis
of a program ends in the error that it has, or in the overview of its analysis. -/
theorem mayShow_iff (p : Program) (r : Except SemanticError Overview) :
    p.MayShow r ↔ r = p.analyze.map Overview.ofAnalysis := by
  rw [MayShow, (settles_overview p).gives_iff]
  refine Eq.to_iff (congrArg (r = ·) ?_)
  unfold overview analyze
  rw [EStateM.run_bind]
  cases p.declare.run new with
  | error e t => rfl
  | ok _ t =>
    simp only [EStateM.run_bind, EStateM.run_get]
    cases (p.bodies.mapM (Body.check t)).run .empty with
    | error e => rfl
    | ok checked => rfl

end Program

end StructLang
