import StructLang.Proofs.Completion
import StructLang.Proofs.ItemRun
import StructLang.Proofs.Overriding

/-!
# The types that a table stores

A declaration may use a struct before the struct is declared.  So the types that a table stores name
structs that are registered or awaited, where a struct is awaited when a use of it is noted.  Every
step of a declaration keeps this (`Step.typesHave`): a note goes only when the struct is registered.
No type of a literal and no `nil` is ever stored, since no name resolves to one.

A completed table awaits nothing, and the members that its structs inherit have been declared
somewhere.  So all its types name registered structs (`Completion.typesHave`).
-/

namespace StructLang

/-! ## Types of declarations -/

/-- A type that a declaration may give, where the structs that it may name are known. -/
def Ty.Over (known : String → Prop) : Ty → Prop
  | .struct name => known name
  | .nil | .literal _ => False
  | .prim _ | .array _ | .void => True

theorem Ty.Over.mono {known known' : String → Prop} {ty : Ty} (h : ty.Over known)
    (hknown : ∀ name, known name → known' name) : ty.Over known' := by
  cases ty with
  | struct name => exact hknown name h
  | nil | literal _ => exact h
  | prim _ | array _ | void => trivial

theorem Ty.over_ofName {known : String → Prop} {x : String}
    (h : ∀ name, Ty.ofName x = .struct name → known name) : (Ty.ofName x).Over known := by
  revert h
  rw [Ty.ofName]
  split
  · exact fun _ => trivial
  · split
    · exact fun _ => trivial
    · split
      · exact fun _ => trivial
      · exact fun h => h x rfl

/-! ## Types of members -/

/-- The types of a method: what it returns, and the types of its parameters and locals. -/
def Method.types (m : Method) : List Ty :=
  m.returnType :: (m.params.map (·.ty) ++ m.locals.map (·.ty))

/-- All types of the members of a struct have a property. -/
structure Struct.TypesHave (p : Ty → Prop) (s : Struct) : Prop where
  attributes : s.attributes.Forall fun a => p a.ty
  methods : s.methods.Forall fun m => ∀ ty ∈ m.types, p ty
  constructor : ∀ m, s.constructor = some m → ∀ ty ∈ m.types, p ty

/-- All types that a table stores have a property. -/
structure SymbolTable.TypesHave (p : Ty → Prop) (t : SymbolTable) : Prop where
  structs : t.structs.Forall (Struct.TypesHave p)
  start : ∀ m, t.start = some m → ∀ ty ∈ m.types, p ty

variable {p q : Ty → Prop}

theorem Method.types_declare {token : Token} {owner : Option String} {kind : MethodKind} {ty : Ty}
    (hty : p ty) (slot : Nat) : ∀ ty' ∈ (Method.declare token owner kind ty slot).types, p ty' := by
  intro ty' hmem
  rw [List.mem_singleton.1 hmem]
  exact hty

/-- A parameter or a local variable adds its type. -/
theorem Method.types_add {m m' : Method} {token : Token} {ty : Ty} (h : ∀ ty ∈ m.types, p ty)
    (hty : p ty) (hadd : m.addParam token ty = .ok m' ∨ m.addLocal token ty = .ok m') :
    ∀ ty ∈ m'.types, p ty := by
  have hmem : ∀ ty' ∈ m'.types, ty' ∈ m.types ∨ ty' = ty := by
    rw [addParam, addLocal] at hadd
    rcases hadd with hadd | hadd
    · split at hadd <;> cases hadd
      simp only [types, List.map_append, List.map_cons, List.map_nil, List.mem_cons,
        List.mem_append, List.not_mem_nil, or_false]
      tauto
    · split at hadd <;> cases hadd
      simp only [types, List.map_append, List.map_cons, List.map_nil, List.mem_cons,
        List.mem_append, List.not_mem_nil, or_false]
      tauto
  intro ty' hty'
  rcases hmem ty' hty' with hold | rfl
  · exact h ty' hold
  · exact hty

namespace Struct.TypesHave

variable {s s' : Struct}

theorem mono (h : s.TypesHave p) (hpq : ∀ ty, p ty → q ty) : s.TypesHave q where
  attributes n a ha := hpq _ (h.attributes n a ha)
  methods n m hm ty hty := hpq ty (h.methods n m hm ty hty)
  constructor m hm ty hty := hpq ty (h.constructor m hm ty hty)

theorem of_detached (h : s.TypesHave p) (heq : s'.detached = s.detached) : s'.TypesHave p := by
  obtain ⟨parent, children, rfl⟩ := Struct.detached_eq_iff.1 heq
  exact ⟨h.attributes, h.methods, h.constructor⟩

theorem recordForm (h : s.TypesHave p) (form : Form) : (s.recordForm form).TypesHave p := by
  cases form with
  | structural => exact ⟨h.attributes, h.methods, h.constructor⟩
  | implementation => exact ⟨h.attributes, h.methods, h.constructor⟩

theorem declare (token : Token) : (Struct.declare token none).TypesHave p where
  attributes n a ha := by cases ha
  methods n m hm := by cases hm
  constructor m hm := by cases hm

theorem addMethod (h : s.TypesHave p) (hvoid : p .void) {token : Token} {kind : MethodKind} {ty : Ty}
    (hty : p ty) (hadd : s.addMethod token kind ty = .ok s') : s'.TypesHave p := by
  rcases addMethod_eq_ok.1 hadd with ⟨_, _, rfl⟩ | ⟨_, _, rfl⟩
  · refine ⟨h.attributes, h.methods, ?_⟩
    rintro m ⟨⟩
    exact Method.types_declare hvoid 0
  · exact ⟨h.attributes, h.methods.insert (Method.types_declare hty _) _, h.constructor⟩

theorem addAttribute (h : s.TypesHave p) {token : Token} {ty : Ty} (hty : p ty) {isPrivate : Bool}
    (hadd : s.addAttribute token ty isPrivate = .ok s') : s'.TypesHave p := by
  obtain ⟨_, rfl⟩ := addAttribute_eq_ok.1 hadd
  exact ⟨h.attributes.insert hty _, h.methods, h.constructor⟩

end Struct.TypesHave

/-! ## Steps -/

namespace SymbolTable

variable {t t' u : SymbolTable} {n : String} {s : Struct}

theorem TypesHave.mono (h : t.TypesHave p) (hpq : ∀ ty, p ty → q ty) : t.TypesHave q where
  structs n s hs := (h.structs n s hs).mono hpq
  start m hm ty hty := hpq ty (h.start m hm ty hty)

/-- A struct that is registered, or of which a use is noted. -/
def Awaited (t : SymbolTable) (n : String) : Prop :=
  t.contains n = true ∨ t.pendingTypes.contains n = true

theorem Noted.over {ty : Ty} (h : t.Noted ty) : ty.Over t.Awaited := by
  rcases h with rfl | ⟨token, rfl, hname⟩
  · trivial
  · exact Ty.over_ofName hname

theorem Awaited.place {token : Token} {parent : Option Token} {form : Form} (h : t.Awaited n)
    (hfree : t.structRefusal? token parent form = none) :
    (t.place token parent form).Awaited n := by
  have hne := fun p hp => ((structRefusal?_eq_none_iff.1 hfree).2.2 p hp).2
  rw [Awaited, contains_place hne, place_eq hne]
  by_cases hn : n = token.lexeme
  · exact .inl (by simp [hn])
  · rcases h with hregistered | hnoted
    · exact .inl (by simp [hregistered])
    · exact .inr (by simp [hn, hnoted])

/-- No step forgets a struct: a note goes only when the struct is registered. -/
theorem Step.awaited (hstep : Step t t') (h : t.Awaited n) : t'.Awaited n := by
  cases hstep with
  | note token =>
    rw [Awaited, contains_noteType]
    exact h.imp_right fun hnoted => (contains_pendingTypes_noteType t token n).2 (.inl hnoted)
  | placed hfree =>
    rw [Awaited, (sameTree_enroll _ _ _).contains_eq]
    exact h.place hfree
  | misplaced hfree => exact h.place hfree
  | addedMethod _ _ hs hadd | addedAttribute _ hs hadd =>
    refine h.imp_left fun hregistered => ?_
    show (t.structs.insert _ _).contains n = true
    rw [NameMap.contains_insert, Bool.or_eq_true]
    exact .inr hregistered
  | addedBinding =>
    rw [Awaited, contains_setOpenMethod, pendingTypes_setOpenMethod]
    exact h
  | started | lost | close => exact h

theorem TypesHave.place (h : t.TypesHave p) {token : Token} {parent : Option Token} {form : Form}
    (hfree : t.structRefusal? token parent form = none) :
    (t.place token parent form).TypesHave p := by
  have hne := fun p hp => ((structRefusal?_eq_none_iff.1 hfree).2.2 p hp).2
  refine ⟨fun n s' hs' => ?_, ?_⟩
  · rcases exists_struct?_place hne hs' with ⟨_, _, hdetached⟩ | ⟨s, hs, hdetached⟩
    · exact (Struct.TypesHave.declare token).of_detached hdetached
    · exact (h.structs n s hs).of_detached hdetached
  · rw [place_eq hne]
    exact h.start

theorem TypesHave.setOpenMethod (h : t.TypesHave p) {m : Method} (hm : ∀ ty ∈ m.types, p ty) :
    (t.setOpenMethod m).TypesHave p := by
  unfold SymbolTable.setOpenMethod
  split
  · exact h
  · exact h
  · refine ⟨h.structs, ?_⟩
    rintro m ⟨⟩
    exact hm
  · refine ⟨h.structs.modify fun s _ hs => ⟨hs.attributes, hs.methods, ?_⟩, h.start⟩
    rintro m ⟨⟩
    exact hm
  · refine ⟨h.structs.modify fun s _ hs => ?_, h.start⟩
    exact ⟨hs.attributes, hs.methods.insert hm _, hs.constructor⟩

/-- The types of the open method are types that the table stores. -/
theorem TypesHave.of_openMethod? (h : t.TypesHave p) {m : Method} (hopen : t.openMethod? = some m) :
    ∀ ty ∈ m.types, p ty := by
  unfold openMethod? at hopen
  split at hopen
  · cases hopen
  · cases hopen
  · exact h.start m hopen
  · obtain ⟨s, hs, hm⟩ := Option.bind_eq_some_iff.1 hopen
    exact (h.structs _ s hs).constructor m hm
  · obtain ⟨s, hs, hm⟩ := Option.bind_eq_some_iff.1 hopen
    exact (h.structs _ s hs).methods _ m hm

/-- A step stores no types but those that have been resolved. -/
theorem Step.typesHave (hstep : Step t t') (hp : ∀ ty, t.Noted ty → p ty) (h : t.TypesHave p) :
    t'.TypesHave p := by
  have hvoid : p .void := hp .void (.inl rfl)
  cases hstep with
  | note token =>
    refine ⟨?_, ?_⟩
    · rw [structs_noteType]
      exact h.structs
    · rw [start_noteType]
      exact h.start
  | placed hfree =>
    have hplaced := h.place hfree
    exact ⟨hplaced.structs.modify fun s _ hs => hs.recordForm _, hplaced.start⟩
  | misplaced hfree => exact h.place hfree
  | started token =>
    refine ⟨h.structs, ?_⟩
    rintro m ⟨⟩
    exact Method.types_declare hvoid 0
  | addedMethod _ _ hs hadd hty =>
    exact ⟨h.structs.insert ((h.structs _ _ hs).addMethod hvoid (hp _ hty) hadd) _, h.start⟩
  | addedAttribute _ hs hadd hty =>
    exact ⟨h.structs.insert ((h.structs _ _ hs).addAttribute (hp _ hty) hadd) _, h.start⟩
  | addedBinding hopen hadd hty =>
    exact h.setOpenMethod (Method.types_add (h.of_openMethod? hopen) (hp _ hty) hadd)
  | lost | close => exact ⟨h.structs, h.start⟩

/-! ## Declared tables -/

/-- The types that a table stores are types of declarations, and the structs that they name are
registered or awaited. -/
def StoresAwaited (t : SymbolTable) : Prop := t.TypesHave fun ty => ty.Over t.Awaited

theorem Step.storesAwaited (hstep : Step t t') (h : t.StoresAwaited) : t'.StoresAwaited := by
  have hmono : ∀ ty : Ty, ty.Over t.Awaited → ty.Over t'.Awaited :=
    fun ty hty => hty.mono fun _ hname => hstep.awaited hname
  exact hstep.typesHave (fun ty hty => hmono ty hty.over) (h.mono hmono)

theorem StoresAwaited.reaches (h : t.StoresAwaited) (hreach : Relation.ReflTransGen Step t t') :
    t'.StoresAwaited := by
  induction hreach with
  | refl => exact h
  | tail _ hstep ih => exact hstep.storesAwaited ih

end SymbolTable

namespace Builtin

/-- The types of a signature. -/
def Signature.types (s : Signature) : List Ty := s.returnType :: s.params.map (·.2)

/-- A built-in struct stores the types of its signatures. -/
theorem typesHave_struct {kind : TokenKind} {name : String} {parent : Option String}
    {methods : List Signature} (h : ∀ s ∈ methods, ∀ ty ∈ s.types, p ty) :
    (struct kind name parent methods).TypesHave p where
  attributes n a ha := by cases ha
  methods n m hm := by
    obtain ⟨⟨s, slot⟩, hs, heq⟩ := List.mem_map.1 (NameMap.mem_of_get?_ofList hm)
    cases heq
    intro ty hty
    refine h s (List.fst_mem_of_mem_zipIdx hs) ty ?_
    simpa [Method.types, method, Signature.types] using hty
  constructor m hm := by cases hm

/-- The built-in methods use primitive types and arrays only. -/
theorem typesHave_of_get? {known : String → Prop} {n : String} {b : Struct}
    (h : structs.get? n = some b) : b.TypesHave (Ty.Over known) := by
  obtain ⟨s, hs, heq⟩ := List.mem_map.1 (NameMap.mem_of_get?_ofList h)
  cases heq
  rcases List.mem_cons.1 hs with rfl | hs
  · exact ⟨fun _ _ ha => (by cases ha), fun _ _ hm => (by cases hm), fun _ hm => (by cases hm)⟩
  · rcases List.mem_cons.1 hs with rfl | hs
    · exact typesHave_struct (by simp [inputOutputMethods, output, input, Signature.types, Ty.Over])
    · obtain ⟨p, _, hp⟩ := List.mem_flatMap.1 hs
      rcases List.mem_cons.1 hp with rfl | hp
      · cases p <;>
          exact typesHave_struct (by simp [primitiveMethods, Signature.types, Ty.Over])
      · rw [List.mem_singleton.1 hp]
        exact typesHave_struct (by simp [arrayMethods, Signature.types, Ty.Over])

end Builtin

namespace SymbolTable

variable {t t' u : SymbolTable} {n : String} {s : Struct}

theorem storesAwaited_new : new.StoresAwaited where
  structs _ _ hs := Builtin.typesHave_of_get? hs
  start m hm := by cases hm

theorem storesAwaited_declared (calls : List Call) : (declared calls).StoresAwaited := by
  have hafter : ∀ (calls : List Call) (t : SymbolTable), t.StoresAwaited →
      (t.after calls).StoresAwaited := by
    intro calls
    induction calls with
    | nil => exact fun t h => h
    | cons call calls ih => exact fun t h => ih _ (h.reaches (call.moves t))
  exact hafter calls new storesAwaited_new

/-! ## Completed tables -/

/-- The types that a completed table stores name registered structs. -/
theorem Completion.typesHave (h : Completion u t) (hstores : u.StoresAwaited) :
    t.TypesHave (Ty.Over fun n => t.contains n = true) := by
  have hbefore : u.TypesHave (Ty.Over fun n => t.contains n = true) := by
    refine hstores.mono fun ty hty => hty.mono fun n hn => ?_
    rw [h.contains_eq]
    refine hn.resolve_right fun hpending => ?_
    obtain ⟨uses, huses⟩ := NameMap.contains_iff.1 hpending
    rw [h.complete.types n] at huses
    cases huses
  refine ⟨fun n s hs => ?_, ?_⟩
  · obtain ⟨own, hown, hkept⟩ := h.kept hs
    have hlaid := h.laid hs
    cases hn : Builtin.structs.contains n with
    | true => exact hbefore.structs n s (h.holdsOwn_of_builtin hn hs).1
    | false =>
      refine ⟨fun x a ha => ?_, fun x m hm => ?_, fun m hm => ?_⟩
      · obtain ⟨_, sa, b, _, hsa, hb, _, _, rfl⟩ := (h.merged hs).attribute_origin h.sound
          h.rooted_before (.inr hn) a ((hlaid.attributes.get?_iff x a).1 ha).1
        obtain ⟨y, hy⟩ := NameMap.mem_values_iff.1 ((sortBySlot_perm _ _).mem_iff.1 hb)
        exact (hbefore.structs _ sa hsa).attributes y b hy
      · obtain ⟨_, sa, b, _, _, hsa, hb, _, rfl⟩ := (h.merged hs).method_origin h.sound
          h.rooted_before (.inr hn) m ((hlaid.methods.get?_iff x m).1 hm).1
        obtain ⟨y, hy⟩ := NameMap.mem_values_iff.1 ((sortBySlot_perm _ _).mem_iff.1 hb)
        exact (hbefore.structs _ sa hsa).methods y b hy
      · rw [hkept] at hm
        exact (hbefore.structs n own hown).constructor m hm
  · rw [h.completes.rest]
    exact hbefore.start

end SymbolTable

end StructLang
