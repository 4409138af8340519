import StructLang.Proofs.Represents
import StructLang.Proofs.Tokens

/-!
# Faults are anchored in the program

An analysis that fails does so at the place of a token of the program, whatever step it fails in.

* A declaration fails at one of the tokens of its item (`Item.anchors_declare`).
* A completion reports places that are kept in the table: the first reference to a missing struct,
  the token of a struct, the token of a member.  `SymbolTable.Anchored` says that these are tokens of
  the program; declarations keep it.  Members of built-in structs are never reported, since a built-in
  struct is not merged again, and the only one with children is the root, which has no members
  (`Struct.Mergeable`).
* A body is refused at one of its tokens (`Program.faultsAt_bodies`).
-/

namespace StructLang

/-! ## Anchored tables -/

variable {tokens : List Token}

/-- The members of a struct stand at some of the tokens. -/
def Struct.MembersFrom (tokens : List Token) (s : Struct) : Prop :=
  s.methods.Forall (·.token ∈ tokens) ∧ s.attributes.Forall (·.token ∈ tokens)

/-- A struct that a program declares stands at one of the tokens, and so do its members. -/
def Struct.Anchored (tokens : List Token) (s : Struct) : Prop :=
  s.builtin = false → s.token ∈ tokens ∧ s.MembersFrom tokens

/-- The places that are kept in a table are those of tokens.  Of the references to a struct that is
missing only the first one is ever reported. -/
structure SymbolTable.Anchored (tokens : List Token) (t : SymbolTable) : Prop where
  structs : t.structs.Forall (Struct.Anchored tokens)
  parents : t.pendingParents.Forall (NameMap.FirstIs (·.reference ∈ tokens))
  types : t.pendingTypes.Forall (NameMap.FirstIs (· ∈ tokens))

/-- An error at one of the tokens. -/
def SemanticError.StandsAt (tokens : List Token) (e : SemanticError) : Prop :=
  e.position.IsOf tokens

/-- The action keeps tables anchored, and fails at one of the tokens. -/
abbrev Anchors (tokens : List Token) (x : Declaring Unit) : Prop :=
  Secures (SymbolTable.Anchored tokens) (SemanticError.StandsAt tokens) x

/-- The value, if there is one, has a property, and otherwise the error stands at a token. -/
def Yields {α : Type} (tokens : List Token) (p : α → Prop) : Except SemanticError α → Prop
  | .ok a => p a
  | .error e => e.StandsAt tokens

/-! ## Members -/

section Members

variable {s : Struct} {token : Token}

theorem Struct.Anchored.addMethod (h : s.Anchored tokens) (htoken : token ∈ tokens)
    (kind : MethodKind) (ty : Ty) :
    Yields tokens (Struct.Anchored tokens) (s.addMethod token kind ty) := by
  have hplace := Token.isOf htoken
  unfold Struct.addMethod
  split
  · split
    · exact hplace
    · exact h
  · split
    · exact hplace
    · intro hbuiltin
      obtain ⟨hs, hmethods, hattributes⟩ := h hbuiltin
      exact ⟨hs, hmethods.insert htoken _, hattributes⟩

theorem Struct.Anchored.addAttribute (h : s.Anchored tokens) (htoken : token ∈ tokens) (ty : Ty)
    (isPrivate : Bool) :
    Yields tokens (Struct.Anchored tokens) (s.addAttribute token ty isPrivate) := by
  unfold Struct.addAttribute
  split
  · exact Token.isOf htoken
  · intro hbuiltin
    obtain ⟨hs, hmethods, hattributes⟩ := h hbuiltin
    exact ⟨hs, hmethods, hattributes.insert htoken _⟩

theorem Method.yields_addParam (htoken : token ∈ tokens) (m : Method) (ty : Ty) :
    Yields tokens (fun m' : Method => m'.token = m.token) (m.addParam token ty) := by
  unfold Method.addParam
  split
  · exact Token.isOf htoken
  · rfl

theorem Method.yields_addLocal (htoken : token ∈ tokens) (m : Method) (ty : Ty) :
    Yields tokens (fun m' : Method => m'.token = m.token) (m.addLocal token ty) := by
  unfold Method.addLocal
  split
  · exact Token.isOf htoken
  · rfl

end Members

/-! ## Declarations -/

namespace SymbolTable

variable {t : SymbolTable} {token type : Token} {parent : Option Token}

theorem anchored_new : new.Anchored tokens where
  structs n s hs := by
    intro hbuiltin
    have hmark := registry_new.builtin_eq hs
    have hcontains : Builtin.structs.contains n = true := NameMap.contains_iff.2 ⟨s, hs⟩
    rw [hbuiltin, hcontains] at hmark
    cases hmark
  parents _ _ h := by cases h
  types _ _ h := by cases h

namespace Anchored

theorem noteType (h : t.Anchored tokens) (htoken : token ∈ tokens) :
    (t.noteType token).Anchored tokens := by
  unfold SymbolTable.noteType
  split
  · split
    · exact h
    · exact ⟨h.structs, h.parents, h.types.push htoken _⟩
  · exact h

theorem noteOptional (h : t.Anchored tokens) {type : Option Token}
    (htype : ∀ token, type = some token → token ∈ tokens) : (t.noteOptional type).Anchored tokens := by
  cases type with
  | none => exact h
  | some token => exact h.noteType (htype token rfl)

theorem setParent (h : t.Anchored tokens) (c p : String) : (t.setParent c p).Anchored tokens := by
  refine ⟨?_, h.parents, h.types⟩
  have hchild : NameMap.Forall (Struct.Anchored tokens)
      (t.structs.modify c fun s => { s with parent := some p }) :=
    h.structs.modify fun _ _ hs => hs
  unfold SymbolTable.setParent
  apply NameMap.Forall.modify
  · split
    · exact hchild.modify fun _ _ hs => hs
    · exact hchild
  · exact fun _ _ hs => hs

theorem await (h : t.Anchored tokens) (hparent : ∀ p, parent = some p → p ∈ tokens)
    (child : String) : (t.await child parent).Anchored tokens := by
  cases parent with
  | none => exact h
  | some p =>
    unfold SymbolTable.await
    dsimp only
    split
    · exact h
    · exact ⟨h.structs, h.parents.push (hparent p rfl) _, h.types⟩

theorem settle (h : t.Anchored tokens) (htoken : token ∈ tokens) (p : String) (form : Form) :
    (t.settle token p form).Anchored tokens := by
  unfold SymbolTable.settle
  split
  · refine ⟨?_, h.parents, h.types⟩
    apply NameMap.Forall.modify
    · apply h.structs.insert
      exact fun _ => ⟨htoken, fun _ _ hm => (by cases hm), fun _ _ ha => (by cases ha)⟩
    · exact fun _ _ hs => hs
  · split
    · exact h.setParent token.lexeme p
    · exact h

theorem foldl_setParent (h : t.Anchored tokens) (p : String) (waiting : List Waiting) :
    (waiting.foldl (fun t w => t.setParent w.child p) t).Anchored tokens := by
  induction waiting generalizing t with
  | nil => exact h
  | cons w waiting ih => exact ih (h.setParent w.child p)

theorem adoptWaiting (h : t.Anchored tokens) (p : String) :
    (t.adoptWaiting p).Anchored tokens := by
  unfold SymbolTable.adoptWaiting
  split
  · exact h
  · apply foldl_setParent
    exact ⟨h.structs, h.parents.erase p, h.types⟩

theorem place (h : t.Anchored tokens) (htoken : token ∈ tokens)
    (hparent : ∀ p, parent = some p → p ∈ tokens) (form : Form) :
    (t.place token parent form).Anchored tokens := by
  have hplaced := ((h.await hparent token.lexeme).settle htoken (t.home parent) form).adoptWaiting
    token.lexeme
  rw [place_eq_adoptWaiting]
  exact ⟨hplaced.structs, hplaced.parents, hplaced.types.erase token.lexeme⟩

theorem enroll (h : t.Anchored tokens) (name : String) (form : Form) :
    (t.enroll name form).Anchored tokens := by
  refine ⟨h.structs.modify fun _ _ hs => ?_, h.parents, h.types⟩
  cases form <;> exact hs

theorem setOpenMethod (h : t.Anchored tokens) {m m' : Method} (hm : t.openMethod? = some m)
    (htoken : m'.token = m.token) : (t.setOpenMethod m').Anchored tokens := by
  unfold SymbolTable.setOpenMethod
  unfold openMethod? at hm
  split
  · exact h
  · exact h
  · exact ⟨h.structs, h.parents, h.types⟩
  · exact ⟨h.structs.modify fun _ _ hs => hs, h.parents, h.types⟩
  · next owner name hscope =>
    refine ⟨h.structs.modify fun s hs hanchored hbuiltin => ?_, h.parents, h.types⟩
    obtain ⟨hown, hmethods, hattributes⟩ := hanchored hbuiltin
    rw [hscope] at hm
    -- the method that is replaced is one of the struct that is changed
    obtain ⟨s', hs', hget⟩ := Option.bind_eq_some_iff.1 hm
    cases hs.symm.trans hs'
    refine ⟨hown, hmethods.insert ?_ name, hattributes⟩
    rw [htoken]
    exact hmethods name m hget

end Anchored

theorem standsAt_of_structRefusal? (htoken : token ∈ tokens)
    (hparent : ∀ p, parent = some p → p ∈ tokens) {form : Form} {e : SemanticError}
    (h : t.structRefusal? token parent form = some e) : e.StandsAt tokens := by
  unfold structRefusal? at h
  dsimp only at h
  split at h
  · cases h
    exact Token.isOf htoken
  · split at h
    · cases h
      exact Token.isOf htoken
    · split at h
      · cases h
      · next p =>
        split at h
        · cases h
          exact Token.isOf (hparent p rfl)
        · cases h

theorem anchors_declareStruct (htoken : token ∈ tokens)
    (hparent : ∀ p, parent = some p → p ∈ tokens) (form : Form) :
    Anchors tokens (declareStruct token parent form) := by
  have hcounts : ∀ p, parentToken form parent = some p → p ∈ tokens := by
    unfold parentToken
    split
    · exact hparent
    · intro p hp
      cases hp
  intro t h
  rw [run_declareStruct]
  cases hrefusal : t.structRefusal? token (parentToken form parent) form with
  | some e => exact standsAt_of_structRefusal? htoken hcounts hrefusal
  | none =>
    dsimp only
    cases (t.place token (parentToken form parent) form).isCyclic token.lexeme with
    | true => exact Token.isOf htoken
    | false => exact (h.place htoken hcounts form).enroll token.lexeme form

theorem anchors_modifyStruct {f : Struct → Except SemanticError Struct}
    (hf : ∀ s, s.Anchored tokens → Yields tokens (Struct.Anchored tokens) (f s)) (name : String) :
    Anchors tokens (modifyStruct name f) := by
  intro t h
  rw [run_modifyStruct]
  cases hs : t.struct? name with
  | none => exact h
  | some s =>
    have hyields := hf s (h.structs name s hs)
    rw [Option.map_some]
    cases hresult : f s with
    | ok s' =>
      rw [hresult] at hyields
      exact ⟨h.structs.insert hyields name, h.parents, h.types⟩
    | error e =>
      rw [hresult] at hyields
      exact hyields

theorem anchors_modifyOpenMethod (htoken : token ∈ tokens)
    {f : Method → Except SemanticError Method}
    (hf : ∀ m, Yields tokens (fun m' : Method => m'.token = m.token) (f m)) :
    Anchors tokens (modifyOpenMethod token f) := by
  intro t h
  rw [run_modifyOpenMethod]
  cases hm : t.openMethod? with
  | none => exact Token.isOf htoken
  | some m =>
    have hyields := hf m
    rw [Option.map_some]
    cases hresult : f m with
    | ok m' =>
      rw [hresult] at hyields
      exact h.setOpenMethod hm hyields
    | error e =>
      rw [hresult] at hyields
      exact hyields

theorem anchors_declareParam (htoken : token ∈ tokens) (htype : type ∈ tokens) :
    Anchors tokens (declareParam token type) := by
  intro t h
  rw [run_declareParam]
  exact anchors_modifyOpenMethod htoken (fun m => m.yields_addParam htoken _) _ (h.noteType htype)

theorem anchors_declareVar (htoken : token ∈ tokens) (htype : type ∈ tokens) (isPrivate : Bool) :
    Anchors tokens (declareVar token type isPrivate) := by
  intro t h
  have hnoted := h.noteType htype
  have hlocal := anchors_modifyOpenMethod htoken
    (fun m => m.yields_addLocal htoken (Ty.ofName type.lexeme)) _ hnoted
  rw [run_declareVar]
  cases t.scope with
  | closed => exact Token.isOf htoken
  | struct owner =>
    have hmodify := anchors_modifyStruct (fun s hs =>
      hs.addAttribute htoken (Ty.ofName type.lexeme) isPrivate) owner _ hnoted
    rw [run_modifyStruct, struct?_noteType] at hmodify
    dsimp only
    cases hs : t.struct? owner with
    | none => exact Token.isOf htoken
    | some s =>
      rw [hs, Option.map_some] at hmodify
      rw [Option.map_some]
      cases hadd : s.addAttribute token (Ty.ofName type.lexeme) isPrivate <;>
        rw [hadd] at hmodify <;> exact hmodify
  | constructor owner => exact hlocal
  | method owner name => exact hlocal
  | start => exact hlocal

theorem anchors_declareTyped (htoken : token ∈ tokens) (kind : MethodKind) (ty : Ty) :
    Anchors tokens (declareTyped token kind ty) := by
  intro t h
  unfold declareTyped
  rw [EStateM.run_bind, EStateM.run_get]
  dsimp only
  cases t.scope.struct? with
  | none => exact Token.isOf htoken
  | some owner =>
    refine Secures.bind (anchors_modifyStruct (fun s hs => hs.addMethod htoken kind ty) owner)
      (fun _ => ?_) t h
    exact Secures.modify fun _ h => ⟨h.structs, h.parents, h.types⟩

theorem anchors_declareMethod (htoken : token ∈ tokens) {returnType : Option Token}
    (htype : ∀ type, returnType = some type → type ∈ tokens) (kind : MethodKind) :
    Anchors tokens (declareMethod token kind returnType) := by
  intro t h
  by_cases hkind : kind = .start
  · rw [hkind, run_declareMethod_start]
    cases t.start.isSome with
    | true => exact Token.isOf htoken
    | false => exact ⟨h.structs, h.parents, h.types⟩
  · rw [run_declareMethod token hkind]
    apply anchors_declareTyped htoken kind
    apply h.noteOptional
    unfold returnToken
    split
    · intro type hnone
      cases hnone
    · exact htype

theorem anchors_closeScope : Anchors tokens closeScope :=
  Secures.modify fun _ h => ⟨h.structs, h.parents, h.types⟩

end SymbolTable

open SymbolTable

theorem VarDef.anchors_locals {locals : List VarDef} (h : locals.flatMap VarDef.tokens ⊆ tokens) :
    Anchors tokens (locals.forM fun v => declareVar v.name v.ty false) := by
  apply Secures.forM
  intro v hv
  have htokens : v.tokens ⊆ tokens := fun _ hmem => h (List.mem_flatMap.2 ⟨v, hv, hmem⟩)
  exact anchors_declareVar (htokens (by simp [VarDef.tokens])) (htokens (by simp [VarDef.tokens]))
    false

theorem MethodDef.anchors_declare {d : MethodDef} (h : d.tokens ⊆ tokens) (impl : Token) :
    Anchors tokens (d.declare impl) := by
  have hname : d.name ∈ tokens := h List.mem_cons_self
  have htype : ∀ type, d.returnType = some type → type ∈ tokens := by
    intro type htype
    exact h (by simp [MethodDef.tokens, htype])
  have hparams : d.params.flatMap VarDef.tokens ⊆ tokens := fun token htoken =>
    h (by simp only [MethodDef.tokens, List.mem_cons, List.mem_append, htoken, true_or, or_true])
  have hlocals : d.locals.flatMap VarDef.tokens ⊆ tokens := fun token htoken =>
    h (by simp only [MethodDef.tokens, List.mem_cons, List.mem_append, htoken, true_or, or_true])
  rw [MethodDef.declare]
  split
  · exact fun _ _ => Token.isOf hname
  · apply Secures.bind (anchors_declareMethod hname htype d.kind)
    intro _
    refine Secures.bind (Secures.forM fun p hp => ?_) fun _ => VarDef.anchors_locals hlocals
    have htokens : p.tokens ⊆ tokens := fun _ hmem => hparams (List.mem_flatMap.2 ⟨p, hp, hmem⟩)
    exact anchors_declareParam (htokens (by simp [VarDef.tokens])) (htokens (by simp [VarDef.tokens]))

theorem Item.anchors_declare {item : Item} (h : item.tokens ⊆ tokens) :
    Anchors tokens item.declare := by
  have hclose (_ : PUnit) : Anchors tokens closeScope := anchors_closeScope
  cases item with
  | struct d =>
    have hname : d.name ∈ tokens := h List.mem_cons_self
    have hparent : ∀ p, d.parent = some p → p ∈ tokens := by
      intro p hp
      exact h (by simp [Item.tokens, StructDef.tokens, hp])
    apply Secures.bind (anchors_declareStruct hname hparent .structural)
    intro _
    refine Secures.bind (Secures.forM fun a ha => ?_) hclose
    have htokens : a.tokens ⊆ tokens := fun token hmem => h <| List.mem_cons_of_mem _ <|
      List.mem_append_right _ (List.mem_flatMap.2 ⟨a, ha, hmem⟩)
    exact anchors_declareVar (htokens (by simp [AttrDef.tokens])) (htokens (by simp [AttrDef.tokens]))
      a.isPrivate
  | impl d =>
    have hname : d.name ∈ tokens := h List.mem_cons_self
    apply Secures.bind (anchors_declareStruct hname (by simp) .implementation)
    intro _
    refine Secures.bind (Secures.forM fun m hm => ?_) hclose
    apply MethodDef.anchors_declare
    exact fun token hmem => h (List.mem_cons_of_mem _ (List.mem_flatMap.2 ⟨m, hm, hmem⟩))
  | start d =>
    have hname : d.token ∈ tokens := h List.mem_cons_self
    apply Secures.bind (anchors_declareMethod hname (by simp) .start)
    intro _
    refine Secures.bind (VarDef.anchors_locals ?_) hclose
    exact fun token hmem => h (List.mem_cons_of_mem _ (List.mem_append_left _ hmem))

theorem Program.anchors_items (p : Program) : Anchors p.tokens (p.items.forM Item.declare) := by
  apply Secures.forM
  intro item hitem
  exact Item.anchors_declare fun token hmem => List.mem_flatMap.2 ⟨item, hitem, hmem⟩

/-! ## Completion -/

namespace Struct

variable {s parent : Struct}

/-- A struct whose members a completion looks at, since it is still to be merged or has children,
has them from the tokens. -/
def Mergeable (tokens : List Token) (s : Struct) : Prop :=
  s.consolidated = false ∨ s.children.isEmpty = false → s.MembersFrom tokens

/-- The change of a struct keeps its members at the tokens, and fails at one of them. -/
abbrev MergesFrom (tokens : List Token) (x : Merge Unit) : Prop :=
  Secures (MembersFrom tokens) (SemanticError.StandsAt tokens) x

theorem mergesFrom_inheritMethod {ancestor : Method} (h : ancestor.token ∈ tokens) :
    MergesFrom tokens (inheritMethod ancestor) := by
  intro s hs
  obtain ⟨hmethods, hattributes⟩ := hs
  unfold inheritMethod
  rw [EStateM.run_bind, EStateM.run_get]
  dsimp only
  cases hown : s.methods.get? ancestor.name with
  | none => exact ⟨hmethods.insert h _, hattributes⟩
  | some own =>
    have htoken := hmethods _ own hown
    dsimp only
    cases overrideFault? own ancestor with
    | some fault => exact Token.isOf htoken
    | none =>
      exact ⟨hmethods.insert (a := { own with slot := ancestor.slot }) htoken _, hattributes⟩

theorem mergesFrom_inheritAttribute {ancestor : Attr} (h : ancestor.token ∈ tokens) :
    MergesFrom tokens (inheritAttribute ancestor) := by
  intro s hs
  obtain ⟨hmethods, hattributes⟩ := hs
  unfold inheritAttribute
  rw [EStateM.run_bind, EStateM.run_get]
  dsimp only
  cases hown : s.attributes.get? ancestor.name with
  | none => exact ⟨hmethods, hattributes.insert (a := ancestor.copied) h _⟩
  | some own => exact Token.isOf (hattributes _ own hown)

theorem MembersFrom.renumberMethods (h : s.MembersFrom tokens) (inherited : NameMap Method) :
    (s.renumberMethods inherited).MembersFrom tokens := by
  obtain ⟨hmethods, hattributes⟩ := h
  refine ⟨?_, hattributes⟩
  apply hmethods.foldl_insert (fun m : Method × Nat => m.1.name) fun m => { m.1 with slot := m.2 }
  intro m hm
  have hnew : m.1 ∈ s.newMethods inherited := (List.mem_zipIdx hm).2.2 ▸ List.getElem_mem _
  unfold newMethods Method.bySlot sortBySlot at hnew
  rw [List.mem_mergeSort, List.mem_filter] at hnew
  have htoken := hmethods.of_mem_values hnew.1
  exact htoken

theorem MembersFrom.renumberAttributes (h : s.MembersFrom tokens) (inherited : NameMap Attr) :
    (s.renumberAttributes inherited).MembersFrom tokens := by
  obtain ⟨hmethods, hattributes⟩ := h
  refine ⟨hmethods, ?_⟩
  apply hattributes.foldl_insert Attr.name fun a => { a with slot := a.slot + inherited.size }
  intro a ha
  have htoken := hattributes.of_mem_values (List.mem_of_mem_filter ha)
  exact htoken

theorem mergesFrom_inheritMethods {inherited : NameMap Method}
    (h : inherited.Forall (·.token ∈ tokens)) : MergesFrom tokens (inheritMethods inherited) := by
  unfold inheritMethods
  split
  · exact Secures.pure ()
  · refine Secures.bind (Secures.forM fun m hm => mergesFrom_inheritMethod ?_) fun _ => ?_
    · exact h.of_mem_values (List.mem_mergeSort.1 hm)
    · exact Secures.modify fun s hs => hs.renumberMethods inherited

theorem mergesFrom_inheritAttributes {inherited : NameMap Attr}
    (h : inherited.Forall (·.token ∈ tokens)) :
    MergesFrom tokens (inheritAttributes inherited) := by
  unfold inheritAttributes
  split
  · exact Secures.pure ()
  · refine Secures.bind (Secures.forM fun a ha => mergesFrom_inheritAttribute ?_) fun _ => ?_
    · exact h.of_mem_values (List.mem_mergeSort.1 ha)
    · exact Secures.modify fun s hs => hs.renumberAttributes inherited

theorem mergesFrom_inheritFrom (h : parent.MembersFrom tokens) :
    MergesFrom tokens (inheritFrom parent) := by
  unfold inheritFrom
  apply Secures.bind (mergesFrom_inheritMethods h.1)
  intro _
  apply Secures.bind (mergesFrom_inheritAttributes h.2)
  intro _
  exact Secures.modify fun s hs => hs

end Struct

namespace SymbolTable

variable {t : SymbolTable}

/-- The members that a completion looks at are from the tokens. -/
def Mergeable (tokens : List Token) (t : SymbolTable) : Prop :=
  t.structs.Forall (Struct.Mergeable tokens)

/-- A declared struct has its members from the tokens.  Of the built-in structs only the root has
children, and it has no members. -/
theorem Anchored.mergeable (h : t.Anchored tokens) (hr : t.Registry) : t.Mergeable tokens := by
  intro n s hs hlooked
  cases hbuiltin : s.builtin with
  | false => exact (h.structs n s hs hbuiltin).2
  | true =>
    by_cases hroot : n = Builtin.root
    · obtain ⟨children, hroots⟩ := hr.root
      rw [← hroot] at hroots
      cases hs.symm.trans hroots
      exact ⟨fun _ _ hm => (by cases hm), fun _ _ ha => (by cases ha)⟩
    · rw [hr.builtin_eq hs] at hbuiltin
      obtain ⟨b, hb⟩ := NameMap.contains_iff.1 hbuiltin
      cases hs.symm.trans (hr.builtin n b hroot hb)
      obtain ⟨_, _, hconsolidated, _, hchildless⟩ := Builtin.underRoot_of_get? hb hroot
      rw [hconsolidated, hchildless] at hlooked
      cases hlooked with
      | inl hfalse => cases hfalse
      | inr hfalse => cases hfalse

/-- The completion keeps what it looks at, and fails at one of the tokens. -/
abbrev MergesFrom (tokens : List Token) (x : Declaring Unit) : Prop :=
  Secures (Mergeable tokens) (SemanticError.StandsAt tokens) x

theorem mergesFrom_mergeChild {parent : Struct} (hparent : parent.MembersFrom tokens)
    (child : String) : MergesFrom tokens (mergeChild parent child) := by
  intro t h
  cases hs : t.struct? child with
  | none =>
    unfold mergeChild
    rw [EStateM.run_bind, EStateM.run_get]
    dsimp only
    rw [hs]
    exact h
  | some s =>
    rw [run_mergeChild hs]
    cases hdone : s.consolidated with
    | true => exact h
    | false =>
      have hmembers := Struct.mergesFrom_inheritFrom hparent s (h child s hs (.inl hdone))
      cases hrun : (Struct.inheritFrom parent).run s with
      | ok _ s' =>
        rw [hrun] at hmembers
        exact h.insert (fun _ => hmembers) child
      | error e s' =>
        rw [hrun] at hmembers
        exact hmembers

theorem mergesFrom_mergeFrom (steps : Nat) (stack : List String) :
    MergesFrom tokens (mergeFrom steps stack) := by
  induction steps generalizing stack with
  | zero => exact Secures.pure ()
  | succ steps ih =>
    cases stack with
    | nil => exact Secures.pure ()
    | cons name stack =>
      intro t h
      unfold mergeFrom
      rw [EStateM.run_bind, EStateM.run_get]
      dsimp only
      cases hs : t.struct? name with
      | none => exact ih stack t h
      | some s =>
        refine Secures.bind (Secures.forM fun child hchild => ?_) (fun _ => ih _) t h
        apply mergesFrom_mergeChild
        -- a struct with a child is one whose members are looked at
        apply h name s hs
        right
        rw [← Bool.not_eq_true, NameMap.isEmpty_iff]
        intro hnone
        have hchild := NameMap.mem_names_iff.1 (List.mem_reverse.1 hchild)
        rw [NameMap.contains, hnone child] at hchild
        cases hchild

theorem Anchored.standsAt_undeclared (h : t.Anchored tokens) {e : SemanticError}
    (he : t.undeclared? = some e) : e.StandsAt tokens := by
  unfold undeclared? at he
  split at he
  · next name waiting _ hfirst =>
    obtain ⟨w, hw, htoken⟩ := h.parents.of_first? hfirst
    rw [hw] at he
    cases he
    exact Token.isOf htoken
  · next name uses _ hfirst =>
    obtain ⟨token, hhead, htoken⟩ := h.types.of_first? hfirst
    rw [hhead] at he
    cases he
    exact Token.isOf htoken
  · cases he

theorem Anchored.standsAt_incomplete (h : t.Anchored tokens) {e : SemanticError}
    (he : t.incomplete? = some e) : e.StandsAt tokens := by
  unfold incomplete? userStructs at he
  obtain ⟨s, hs, hpart⟩ := List.exists_of_findSome?_eq_some he
  obtain ⟨part, _, rfl⟩ := Option.map_eq_some_iff.1 hpart
  rw [List.mem_filter, Bool.not_eq_true'] at hs
  exact Token.isOf (h.structs.of_mem_values hs.1 hs.2).1

theorem Anchored.standsAt_consolidate (h : t.Anchored tokens) (hr : t.Registry)
    {t' : SymbolTable} {e : SemanticError} (hrun : consolidate.run t = .error e t') :
    e.StandsAt tokens := by
  rw [run_consolidate_eq] at hrun
  cases hdone : t.consolidated with
  | true =>
    rw [hdone] at hrun
    cases hrun
  | false =>
    rw [hdone] at hrun
    cases hrefusal : t.undeclared?.or t.incomplete? with
    | some e' =>
      rw [hrefusal] at hrun
      cases hrun
      rcases Option.or_eq_some_iff.1 hrefusal with hundeclared | ⟨_, hincomplete⟩
      · exact h.standsAt_undeclared hundeclared
      · exact h.standsAt_incomplete hincomplete
    | none =>
      rw [hrefusal] at hrun
      have hmerge : MergesFrom tokens (do
          mergeFrom t.structs.size [Builtin.root]
          modify fun t => { t with consolidated := true }) :=
        Secures.bind (mergesFrom_mergeFrom _ _) fun _ => Secures.modify fun _ hm => hm
      exact hmerge.of_error (h.mergeable hr) hrun

end SymbolTable

/-! ## Analysis -/

theorem Program.standsAt_declare {p : Program} {t : SymbolTable} {e : SemanticError}
    (h : p.declare.run .new = .error e t) : e.StandsAt p.tokens := by
  unfold Program.declare at h
  rw [EStateM.run_bind] at h
  cases hitems : (p.items.forM Item.declare).run .new with
  | ok _ u =>
    rw [hitems] at h
    have hsound := (represents_of_run hitems).sound
    exact (p.anchors_items.of_ok anchored_new hitems).standsAt_consolidate hsound.registry h
  | error e' u =>
    rw [hitems] at h
    cases h
    exact p.anchors_items.of_error anchored_new hitems

theorem Program.standsAt_analyze {p : Program} {e : SemanticError} (h : p.analyze = .error e) :
    e.StandsAt p.tokens := by
  rw [Program.analyze_eq] at h
  cases hdeclare : p.declare.run .new with
  | error e' t =>
    rw [hdeclare] at h
    cases h
    exact Program.standsAt_declare hdeclare
  | ok _ t =>
    rw [hdeclare] at h
    cases hbodies : p.bodies.mapM (Body.infer t) with
    | error e' =>
      simp only [hbodies, Except.map, Except.error.injEq] at h
      exact h ▸ p.faultsAt_bodies t e' hbodies
    | ok bodies =>
      simp only [hbodies, Except.map] at h
      cases h

theorem SemanticError.location_report (e : SemanticError) {token : Token}
    (h : e.position = token.position) (file : String) :
    (e.diagnostic.report file).location =
      if token.line = 0 ∧ token.column = 0 then none
      else some ⟨file, token.line, token.column⟩ := by
  unfold Diagnostic.report SemanticError.diagnostic Position.isOrigin
  rw [h]
  simp [Token.position]

/-- An analysis that fails does so at the place of a token of the program.  The report of the error
gives this place, and none only for a token that stands at the origin itself. -/
theorem Program.analyze_error_anchored {p : Program} {e : SemanticError}
    (h : p.analyze = .error e) :
    ∃ token ∈ p.tokens, e.position = token.position ∧
      ∀ file, (e.diagnostic.report file).location =
        if token.line = 0 ∧ token.column = 0 then none
        else some ⟨file, token.line, token.column⟩ := by
  obtain ⟨token, htoken, hplace⟩ := Program.standsAt_analyze h
  exact ⟨token, htoken, hplace, e.location_report hplace⟩

/-- A struct `C` under `B` under `A`, where the method `f` of `C` stands at 7:4 and returns another
type than that of `A`. -/
def misfitOverride : Program :=
  let struct (name : String) := Token.builtin .structId name
  let constructed : MethodDef := ⟨.builtin .objectId ".", .constructor, [], none, [], []⟩
  let returning (token type : Token) : MethodDef := ⟨token, .onInstance, [], some type, [], []⟩
  ⟨[.struct ⟨struct "C", some (struct "B"), []⟩,
    .impl ⟨struct "C", [constructed, returning ⟨.objectId, "f", 7, 4⟩ (.builtin .boolType "Bool")]⟩,
    .struct ⟨struct "A", none, []⟩,
    .impl ⟨struct "A",
      [constructed, returning (.builtin .objectId "f") (.builtin .intType "Int")]⟩,
    .struct ⟨struct "B", some (struct "A"), []⟩,
    .impl ⟨struct "B", [constructed]⟩]⟩

theorem Program.analyze_error_anchored_of_misfitOverride :
    ∃ e, misfitOverride.analyze = .error e ∧ e.position = ⟨7, 4⟩ ∧
      ∃ token ∈ misfitOverride.tokens, e.position = token.position ∧
        ∀ file, (e.diagnostic.report file).location =
          if token.line = 0 ∧ token.column = 0 then none
          else some ⟨file, token.line, token.column⟩ := by
  have hplace : (match misfitOverride.analyze with
      | .ok _ => none
      | .error e => some e.position) = some ⟨7, 4⟩ := by
    decide +kernel
  cases h : misfitOverride.analyze with
  | ok a =>
    rw [h] at hplace
    cases hplace
  | error e =>
    rw [h] at hplace
    exact ⟨e, rfl, Option.some.inj hplace, Program.analyze_error_anchored h⟩

end StructLang
