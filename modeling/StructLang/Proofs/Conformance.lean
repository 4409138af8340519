import StructLang.Layout
import StructLang.Proofs.Completion
import StructLang.Proofs.Overriding

/-!
# Structs that conform to their ancestors

In a completed table the members of a struct stand for those of each of its ancestors, slot by slot,
so that code made for the ancestor works on the struct (`Replaces`, `replaces_of_isSubtype`).

* `Struct.Conforms` is what one step of inheritance gives (`Completion.conforms_parent`).  It is
  reflexive and transitive, so every struct conforms to its ancestors (`Completion.conforms`).
* `NearestDeclaration` says which body a method name leads to: the first struct of the lineage that
  declares the name owns the method (`Completion.nearestDeclaration`).
* The dispatch table lists what the struct holds (`DispatchTable.mem_methods_iff`).
-/

namespace StructLang

/-! ## Conformance -/

/-- A method that takes the place of `m` where a descendant is used. -/
structure Method.StandsFor (m' m : Method) : Prop where
  name : m'.name = m.name
  slot : m'.slot = m.slot
  signature : m'.signature = m.signature
  returnType : m'.returnType = m.returnType
  /-- Static methods are never replaced. -/
  static : m.isStatic = true → m' = m

namespace Method.StandsFor

variable {m m' m'' : Method}

theorem refl (m : Method) : m.StandsFor m := ⟨rfl, rfl, rfl, rfl, fun _ => rfl⟩

theorem trans (h' : m''.StandsFor m') (h : m'.StandsFor m) : m''.StandsFor m where
  name := h'.name.trans h.name
  slot := h'.slot.trans h.slot
  signature := h'.signature.trans h.signature
  returnType := h'.returnType.trans h.returnType
  static := by
    intro hstatic
    have hsame := h.static hstatic
    exact (h'.static (hsame ▸ hstatic)).trans hsame

end Method.StandsFor

namespace Struct

variable {s r q : Struct}

/-- The members of `s` stand for those of `ancestor`. -/
structure Conforms (s ancestor : Struct) : Prop where
  attributes : s = ancestor ∨ ancestor.attributesBySlot.map Attr.copied <+: s.attributesBySlot
  methods : ∀ m ∈ ancestor.methodsBySlot, ∃ m' ∈ s.methodsBySlot, m'.StandsFor m

namespace Conforms

theorem refl (s : Struct) : s.Conforms s :=
  ⟨.inl rfl, fun m hm => ⟨m, hm, .refl m⟩⟩

theorem trans (h' : q.Conforms r) (h : r.Conforms s) : q.Conforms s where
  attributes := by
    rcases h.attributes with rfl | hfirst
    · exact h'.attributes
    · rcases h'.attributes with rfl | hsecond
      · exact .inr hfirst
      · -- a copy of a copy is the copy
        have hcopies := hfirst.map Attr.copied
        rw [List.map_map] at hcopies
        exact .inr (List.IsPrefix.trans hcopies hsecond)
  methods := by
    intro m hm
    obtain ⟨m', hm', hfirst⟩ := h.methods m hm
    obtain ⟨m'', hm'', hsecond⟩ := h'.methods m' hm'
    exact ⟨m'', hm'', hsecond.trans hfirst⟩

end Conforms

/-- A struct without members asks for nothing. -/
theorem conforms_of_empty (h : r.Laid [] []) (s : Struct) : s.Conforms r := by
  refine ⟨.inr ?_, ?_⟩
  · rw [h.attributesBySlot_eq]
    exact List.nil_prefix
  · intro m hm
    rw [h.methodsBySlot_eq] at hm
    cases hm

/-- An inherited method, or what overrides it, keeps its place in a layout. -/
theorem getElem?_layout {inherited own : List Method} {m : Method} {i : Nat}
    (hm : inherited[i]? = some m) :
    (Method.layout inherited own)[i]? = some { m.overriddenBy own with slot := i } := by
  have hi : i < inherited.length := (List.getElem?_eq_some_iff.1 hm).1
  unfold Method.layout Method.numbered
  rw [List.getElem?_mapIdx, List.getElem?_append_left (by rw [List.length_map]; exact hi),
    List.getElem?_map, hm]
  rfl

/-- What stands for an inherited method in a layout: an own method that overrides it agrees with
it. -/
theorem exists_standsFor {parentMap : NameMap Method} {inherited own : List Method}
    (hparent : MethodListing parentMap inherited)
    (hfits : ∀ a ∈ inherited, ∀ m ∈ own, m.name = a.name → overrideFault? m a = none)
    {m : Method} (hm : m ∈ inherited) :
    ∃ m' ∈ Method.layout inherited own, m'.StandsFor m := by
  obtain ⟨i, hi⟩ := List.mem_iff_getElem?.1 hm
  have hslot : m.slot = i := hparent.slots i m hi
  subst hslot
  refine ⟨_, List.mem_of_getElem? (getElem?_layout hi), ?_⟩
  unfold Method.overriddenBy
  cases hfind : own.find? (·.name == m.name) with
  | none => exact .refl m
  | some b =>
    have hname : b.name = m.name := by simpa using List.find?_some hfind
    obtain ⟨hplain, hsignature, hreturn⟩ := overrideFault?_eq_none_iff.1
      (hfits m hm b (List.mem_of_find?_eq_some hfind) hname)
    refine ⟨hname, rfl, hsignature, hreturn, ?_⟩
    intro hstatic
    rw [hplain] at hstatic
    cases hstatic

end Struct

namespace SymbolTable

variable {u t : SymbolTable} {a d n p : String} {s sa sd sp : Struct}

/-- One step of inheritance. -/
theorem Completion.conforms_parent (h : Completion u t) (hextends : t.Extends n p)
    (hs : t.struct? n = some s) (hsp : t.struct? p = some sp) : s.Conforms sp := by
  by_cases hroot : p = Builtin.root
  · -- the root has no members
    subst hroot
    have hbefore := (h.holdsOwn_of_builtin rfl hsp).1
    exact Struct.conforms_of_empty (h.sound.registry.laid_root hbefore) s
  · cases hn : Builtin.structs.contains n with
    | true => exact absurd (h.eq_root_of_extends hextends hn) hroot
    | false =>
      obtain ⟨q, sq, own, hq, hsq, hown, hfits, hlaid⟩ := h.over_parent hn hs
      cases hextends.parent_unique hq
      rw [hsp] at hsq
      cases hsq
      have hparent := h.laid hsp
      obtain ⟨ms, as, hmembers⟩ := h.sound.contents.own n own hn hown
      have hattrs : AttrListing own.attributes own.attributesBySlot :=
        hmembers.laid.attributesBySlot_eq.symm ▸ hmembers.laid.attributes
      refine ⟨.inr ?_, ?_⟩
      · rw [hlaid.attributesBySlot_eq, Struct.attrLayout_eq hparent.attributes hattrs]
        exact List.prefix_append _ _
      · intro m hm
        rw [hlaid.methodsBySlot_eq]
        exact Struct.exists_standsFor hparent.methods hfits.overrides hm

/-- A struct conforms to each of its ancestors. -/
theorem Completion.conforms (h : Completion u t) (hbelow : t.Below d a)
    (hd : t.struct? d = some sd) (ha : t.struct? a = some sa) : sd.Conforms sa := by
  induction hbelow using Relation.ReflTransGen.head_induction_on generalizing sd with
  | refl =>
    rw [hd] at ha
    cases ha
    exact .refl _
  | @head n p hextends _ ih =>
    have hregistered : t.contains p = true := by
      apply h.contains_of_below (contains_iff_struct?.2 ⟨sd, hd⟩)
      exact .single hextends
    obtain ⟨sp, hsp⟩ := contains_iff_struct?.1 hregistered
    exact (h.conforms_parent hextends hd hsp).trans (ih hsp)

/-! ## The nearest declaration -/

/-- The method that a struct declares under a name, in a table that is not completed. -/
def declaration? (u : SymbolTable) (name n : String) : Option Method :=
  (u.struct? n).bind (·.methods.get? name)

/-- On the way from `d` to the root of `t`, `owner` is the first struct that declares the name in
`u`, with the method `b`. -/
structure NearestDeclaration (u t : SymbolTable) (d name owner : String) (b : Method) : Prop where
  first : (t.lineage d).find? (fun n => (u.declaration? name n).isSome) = some owner
  declared : u.declaration? name owner = some b

theorem NearestDeclaration.self {name : String} {b : Method} (h : u.declaration? name n = some b) :
    NearestDeclaration u t n name n b := by
  refine ⟨?_, h⟩
  unfold lineage lineageWithin
  rw [List.find?_cons_of_pos (by rw [h]; rfl)]

theorem NearestDeclaration.of_parent {name owner : String} {b : Method}
    (hlineage : t.lineage n = n :: t.lineage p) (hnone : u.declaration? name n = none)
    (h : NearestDeclaration u t p name owner b) : NearestDeclaration u t n name owner b := by
  refine ⟨?_, h.declared⟩
  rw [hlineage, List.find?_cons_of_neg (by rw [hnone]; exact Bool.false_ne_true), h.first]

/-- The nearest declaration of its name owns a method, and only the slot may have changed. -/
theorem Completion.nearestDeclaration (h : Completion u t) (hs : t.struct? n = some s) :
    ∀ m ∈ s.methodsBySlot, ∃ owner b, NearestDeclaration u t n m.name owner b ∧
      m.owner = some owner ∧ m = { b with slot := m.slot } := by
  have hrooted := h.rooted (contains_iff_struct?.2 ⟨s, hs⟩)
  induction hrooted using Relation.ReflTransGen.head_induction_on generalizing s with
  | refl =>
    intro m hm
    have hlaid := h.sound.registry.laid_root (h.holdsOwn_of_builtin rfl hs).1
    rw [hlaid.methodsBySlot_eq] at hm
    cases hm
  | @head n p hextends hrooted ih =>
    intro m hm
    cases hn : Builtin.structs.contains n with
    | true =>
      obtain ⟨hbefore, ms, hown⟩ := h.holdsOwn_of_builtin hn hs
      rw [hown.laid.methodsBySlot_eq] at hm
      refine ⟨n, m, .self ?_, ?_, rfl⟩
      · rw [declaration?, hbefore]
        exact hown.laid.methods.mem_iff.1 hm
      · rw [hown.owners m hm, h.sound.registry.name_eq hbefore]
    | false =>
      obtain ⟨q, sq, own, hq, hsq, hown, _, hlaid⟩ := h.over_parent hn hs
      cases hextends.parent_unique hq
      obtain ⟨ms, as, hmembers⟩ := h.sound.contents.own n own hn hown
      rw [hlaid.methodsBySlot_eq, hmembers.laid.methodsBySlot_eq] at hm
      obtain ⟨b, hb | ⟨hb, hout⟩, slot, rfl⟩ := Method.exists_of_mem_layout hm
      · refine ⟨n, b, .self ?_, ?_, rfl⟩
        · rw [declaration?, hown]
          exact hmembers.laid.methods.mem_iff.1 hb
        · show b.owner = some n
          rw [(hmembers.methods b hb).1, h.sound.registry.name_eq hown]
      · -- no own method has the name, so the search goes on at the parent
        obtain ⟨owner, c, hnearest, howner, hc⟩ := ih hsq b hb
        refine ⟨owner, c, hnearest.of_parent ?_ ?_, howner, ?_⟩
        · exact lineage_of_extends h.parent?_root hextends hrooted
        · show u.declaration? b.name n = none
          rw [declaration?, hown]
          apply hmembers.laid.methods.get?_eq_none_iff.2
          intro hmem
          obtain ⟨o, ho, hname⟩ := List.mem_map.1 hmem
          exact hout o ho hname
        · rw [hc]

end SymbolTable

/-! ## Dispatch tables -/

namespace DispatchTable

variable {s : Struct} {m : Method} {e : MethodSlot}

theorem mem_sortMethods_iff {methods : List Method} {entry : Method → MethodSlot × Bool}
    {keep : MethodSlot × Bool → Bool} :
    e ∈ sortMethods (((methods.map entry).filter keep).map (·.1)) ↔
      ∃ m ∈ methods, keep (entry m) = true ∧ e = (entry m).1 := by
  rw [sortMethods, (sortBySlot_perm _ _).mem_iff, List.filter_map, List.map_map, List.mem_map]
  constructor
  · rintro ⟨m, hm, rfl⟩
    exact ⟨m, (List.mem_filter.1 hm).1, (List.mem_filter.1 hm).2, rfl⟩
  · rintro ⟨m, hm, hkeep, rfl⟩
    exact ⟨m, List.mem_filter.2 ⟨hm, hkeep⟩, rfl⟩

theorem mem_methods_iff : e ∈ (ofStruct s).methods ↔ ∃ m ∈ s.methodsBySlot,
    m.isStatic = false ∧ e = ⟨.ofNat m.slot, m.name, m.owner.getD s.name⟩ := by
  refine mem_sortMethods_iff.trans ?_
  simp only [Bool.not_eq_true']

theorem mem_staticMethods_iff : e ∈ (ofStruct s).staticMethods ↔ ∃ m ∈ s.methodsBySlot,
    m.isStatic = true ∧ e = ⟨.ofNat m.slot, m.name, m.owner.getD s.name⟩ :=
  mem_sortMethods_iff

/-- The entries under the name of a method are at most its own, since no two methods share it. -/
theorem named_iff {entries : List MethodSlot} {static : Bool}
    (hentries : ∀ e, e ∈ entries ↔ ∃ m ∈ s.methodsBySlot,
      m.isStatic = static ∧ e = ⟨.ofNat m.slot, m.name, m.owner.getD s.name⟩)
    (hlaid : s.Laid s.methodsBySlot s.attributesBySlot) (hm : m ∈ s.methodsBySlot) :
    e ∈ entries ∧ e.method = m.name ↔
      m.isStatic = static ∧ e = ⟨.ofNat m.slot, m.name, m.owner.getD s.name⟩ := by
  rw [hentries]
  constructor
  · intro h
    obtain ⟨⟨m', hm', hstatic, rfl⟩, hname⟩ := h
    cases hlaid.methods.eq_of_name_eq hm' hm hname
    exact ⟨hstatic, rfl⟩
  · intro h
    exact ⟨⟨m, hm, h⟩, by rw [h.2]⟩

theorem recordSize_ofStruct : (ofStruct s).recordSize = 1 + s.attributesBySlot.length := by
  unfold recordSize ofStruct ofMembers sortAttributes
  rw [(sortBySlot_perm _ _).length_eq, List.length_map]

end DispatchTable

namespace SymbolTable

variable {t : SymbolTable} {a d : String} {sa sd : Struct}

/-! ## Completed tables -/

/-- The struct `sd`, found under `d` in the completed table `t`, can be used in the place of its
ancestor `sa`.  The table `u` is the one before the completion. -/
structure Replaces (u t : SymbolTable) (d : String) (sd sa : Struct) : Prop where
  /-- The attributes of the ancestor come first, with everything that they carry; those of a proper
  ancestor are marked as inherited. -/
  attributes : sd = sa ∨ sa.attributesBySlot.map Attr.copied <+: sd.attributesBySlot
  recordSize : (DispatchTable.ofStruct sa).recordSize ≤ (DispatchTable.ofStruct sd).recordSize
  /-- A method of the ancestor has its slot and its types in `sd`, with the body of the nearest
  declaration `b`, and the dispatch table lists it by the kind of `b`. -/
  methods : ∀ m ∈ sa.methodsBySlot, ∃ m' ∈ sd.methodsBySlot, ∃ owner b,
    m'.StandsFor m ∧ NearestDeclaration u t d m.name owner b ∧
    m'.owner = some owner ∧ m' = { b with slot := m.slot } ∧
    (∀ e, e ∈ (DispatchTable.ofStruct sd).methods ∧ e.method = m.name ↔
      b.isStatic = false ∧ e = ⟨.ofNat m.slot, m.name, owner⟩) ∧
    ∀ e, e ∈ (DispatchTable.ofStruct sd).staticMethods ∧ e.method = m.name ↔
      b.isStatic = true ∧ e = ⟨.ofNat m.slot, m.name, owner⟩

theorem Completion.replaces {u : SymbolTable} (h : Completion u t) (hbelow : t.Below d a)
    (hd : t.struct? d = some sd) (ha : t.struct? a = some sa) : Replaces u t d sd sa := by
  have hconforms := h.conforms hbelow hd ha
  refine ⟨hconforms.attributes, ?_, ?_⟩
  · rw [DispatchTable.recordSize_ofStruct, DispatchTable.recordSize_ofStruct]
    rcases hconforms.attributes with rfl | hprefix
    · exact Nat.le_refl _
    · have hlength := hprefix.length_le
      rw [List.length_map] at hlength
      omega
  · intro m hm
    obtain ⟨m', hm', hstands⟩ := hconforms.methods m hm
    obtain ⟨owner, b, hnearest, howner, hbody⟩ := h.nearestDeclaration hd m' hm'
    have hkind : b.isStatic = m'.isStatic := by
      rw [hbody]
      rfl
    refine ⟨m', hm', owner, b, hstands, hstands.name ▸ hnearest, howner, hstands.slot ▸ hbody,
      ?_, ?_⟩
    · intro e
      have hlisted := DispatchTable.named_iff (e := e) (fun _ => DispatchTable.mem_methods_iff)
        (h.laid hd) hm'
      rw [howner, hstands.name, hstands.slot, ← hkind] at hlisted
      exact hlisted
    · intro e
      have hlisted := DispatchTable.named_iff (e := e)
        (fun _ => DispatchTable.mem_staticMethods_iff) (h.laid hd) hm'
      rw [howner, hstands.name, hstands.slot, ← hkind] at hlisted
      exact hlisted

/-- After any calls and a first completion that succeeds, every struct can be used in the place of
each of its ancestors. -/
theorem replaces_of_isSubtype {calls : List Call}
    (hrun : consolidate.run (declared calls) = .ok () t) (hd : t.struct? d = some sd)
    (ha : t.struct? a = some sa) (hsubtype : t.isSubtype d a = true) :
    Replaces (declared calls) t d sd sa :=
  (completion_of_consolidate hrun).replaces (isSubtype_iff_below.1 hsubtype) hd ha

/-- Calls that declare `C : B`, `A` and `B : A`, where `B` overrides the method `f` of `A`. -/
def threeLevelCalls : List Call :=
  let struct (name : String) := Token.builtin .structId name
  let member (name : String) := Token.builtin .objectId name
  let int := Token.builtin .intType "Int"
  [.struct (struct "C") (some (struct "B")) .structural, .var (member "z") int false,
   .struct (struct "C") none .implementation, .method (member ".") .constructor none,
   .method (member "g") .static none,
   .struct (struct "A") none .structural, .var (member "y") int true,
   .struct (struct "A") none .implementation, .method (member ".") .constructor none,
   .method (member "f") .onInstance (some int), .param (member "k") int,
   .struct (struct "B") (some (struct "A")) .structural,
   .struct (struct "B") none .implementation, .method (member ".") .constructor none,
   .method (member "f") .onInstance (some int), .param (member "n") int]

theorem replaces_of_threeLevelCalls :
    ∃ t sc sa, consolidate.run (declared threeLevelCalls) = .ok () t ∧
      t.struct? "C" = some sc ∧ t.struct? "A" = some sa ∧ t.isSubtype "C" "A" = true ∧
      sa.methods.contains "f" = true ∧ (sc.methods.get? "f").map Method.owner = some (some "B") ∧
      Replaces (declared threeLevelCalls) t "C" sc sa := by
  have hrun := run_of_succeeds (x := consolidate) (s := declared threeLevelCalls)
    (by decide +kernel)
  have hmethod : ((stateAfter consolidate (declared threeLevelCalls)).struct? "A").map
      (·.methods.contains "f") = some true := by
    decide +kernel
  have howner : ((stateAfter consolidate (declared threeLevelCalls)).struct? "C").map
      (fun s => (s.methods.get? "f").map Method.owner) = some (some (some "B")) := by
    decide +kernel
  have hsubtype : (stateAfter consolidate (declared threeLevelCalls)).isSubtype "C" "A" = true := by
    decide +kernel
  obtain ⟨sa, ha, hmethod⟩ := Option.map_eq_some_iff.1 hmethod
  obtain ⟨sc, hc, howner⟩ := Option.map_eq_some_iff.1 howner
  exact ⟨_, sc, sa, hrun, hc, ha, hsubtype, hmethod, howner,
    replaces_of_isSubtype hrun hc ha hsubtype⟩

end SymbolTable

end StructLang
