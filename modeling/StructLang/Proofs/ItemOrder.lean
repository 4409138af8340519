import StructLang.Proofs.Alike
import StructLang.Proofs.WellFormed

/-!
# The order of the items

A program may declare its items in any order.  Two programs with the same items are both accepted or
both refused, and what is known of them afterwards differs only in the tokens of structs and in the
order of the bodies.

* What a list of items says about a name does not depend on the order (`structDef?_eq`, `names_iff`
  and others), and neither does whether they can be declared (`Declarable.perm`).
* Tables that represent the same items are alike (`Represents.alike`).
* `Program.analyze_eq_ok` opens an analysis, and the bodies of an item are annotated in the same way
  in both tables.
-/

namespace StructLang

open Items SymbolTable

/-! ## What a list of items says -/

namespace Items

variable {items items' : List Item} {n : String}

theorem structDefs_perm (hperm : items.Perm items') : (structDefs items).Perm (structDefs items') :=
  hperm.filterMap _

theorem implDefs_perm (hperm : items.Perm items') : (implDefs items).Perm (implDefs items') :=
  hperm.filterMap _

theorem names_iff (hperm : items.Perm items') : Names items' n ↔ Names items n := by
  rw [Names, Names, ((structDefs_perm hperm).map _).mem_iff, ((implDefs_perm hperm).map _).mem_iff]

theorem mentions_iff (hperm : items.Perm items') : Mentions items' n ↔ Mentions items n := by
  simp only [Mentions, hperm.mem_iff]

theorem inherits_eq (hperm : items.Perm items') : Inherits items' = Inherits items := by
  funext c p
  simp only [Inherits, (structDefs_perm hperm).mem_iff]

theorem Declarable.perm (h : Declarable items) (hperm : items.Perm items') :
    Declarable items' where
  each := fun item hitem => h.each item (hperm.mem_iff.2 hitem)
  structNames := ((structDefs_perm hperm).map _).nodup_iff.1 h.structNames
  implNames := ((implDefs_perm hperm).map _).nodup_iff.1 h.implNames
  starts := (hperm.filterMap _).length_eq ▸ h.starts
  acyclic := by
    rw [inherits_eq hperm]
    exact h.acyclic

/-- The item of a name is the same, since there is only one. -/
theorem structDef?_eq (h : Declarable items) (hperm : items.Perm items') :
    structDef? items' n = structDef? items n := by
  refine Option.ext fun d => ?_
  rw [structDef?_eq_some_iff h.structNames, structDef?_eq_some_iff (h.perm hperm).structNames,
    (structDefs_perm hperm).mem_iff]

theorem implDef?_eq (h : Declarable items) (hperm : items.Perm items') :
    implDef? items' n = implDef? items n := by
  refine Option.ext fun d => ?_
  rw [implDef?_eq_some_iff h.implNames, implDef?_eq_some_iff (h.perm hperm).implNames,
    (implDefs_perm hperm).mem_iff]

theorem parent?_eq (h : Declarable items) (hperm : items.Perm items') :
    parent? items' n = parent? items n := by
  rw [parent?, structDef?_eq h hperm, parent?]

theorem startDefs_eq (h : Declarable items) (hperm : items.Perm items') :
    startDefs items' = startDefs items := by
  have hstarts : (startDefs items).Perm (startDefs items') := hperm.filterMap _
  have hlength := h.starts
  match hdefs : startDefs items with
  | [] =>
    rw [hdefs] at hstarts
    exact hstarts.nil_eq.symm
  | [d] =>
    rw [hdefs] at hstarts
    exact List.perm_singleton.1 hstarts.symm
  | _ :: _ :: _ =>
    rw [hdefs] at hlength
    simp at hlength

end Items

/-- A program can be declared and completed in every order of its items. -/
theorem Program.exists_declare_perm {p p' : Program} (hperm : p.items.Perm p'.items)
    (h : ∃ t, p.declare.run new = .ok () t) : ∃ t, p'.declare.run new = .ok () t := by
  obtain ⟨hitems, hparents, htypes, hparts, hcompatible⟩ := Program.exists_declare_iff.1 h
  refine Program.exists_declare_iff.2 ⟨hitems.perm hperm, fun c q hq => ?_, fun n hn => ?_,
    fun n hn => ?_, fun c a hinherits => ?_⟩
  · rw [parent?_eq hitems hperm] at hq
    rw [names_iff hperm]
    exact hparents c q hq
  · rw [names_iff hperm]
    exact htypes n ((mentions_iff hperm).1 hn)
  · rw [Represents.HasParts, structDef?_eq hitems hperm, implDef?_eq hitems hperm]
    exact hparts n ((names_iff hperm).1 hn)
  · rw [inherits_eq hperm] at hinherits
    obtain ⟨hattributes, hmethods⟩ := hcompatible c a hinherits
    constructor
    · simpa only [(structDefs_perm hperm).mem_iff] using hattributes
    · simpa only [(implDefs_perm hperm).mem_iff] using hmethods

/-! ## Tables of the same items -/

namespace Struct.Alike

variable {s s' : Struct}

theorem foldl_withAttribute (h : s.Alike s') (l : List AttrDef) :
    (l.foldl withAttribute s).Alike (l.foldl withAttribute s') := by
  induction l generalizing s s' with
  | nil => exact h
  | cons a l ih =>
    refine ih ?_
    obtain ⟨token, hname, rfl⟩ := h
    refine ⟨token, hname, ?_⟩
    rw [withAttribute, withAttribute, show ({ s with token } : Struct).name = s.name from hname]

theorem foldl_withMethod (h : s.Alike s') (l : List MethodDef) :
    (l.foldl withMethod s).Alike (l.foldl withMethod s') := by
  induction l generalizing s s' with
  | nil => exact h
  | cons m l ih =>
    refine ih ?_
    obtain ⟨token, hname, rfl⟩ := h
    rw [withMethod, withMethod, show ({ s with token } : Struct).name = s.name from hname]
    split <;> exact ⟨token, hname, rfl⟩

theorem recordForm (h : s.Alike s') (form : Form) :
    (s.recordForm form).Alike (s'.recordForm form) := by
  obtain ⟨token, hname, rfl⟩ := h
  cases form <;> exact ⟨token, hname, rfl⟩

/-- The record of the items of a name depends on the token only where it holds it. -/
theorem ofItems {token token' : Token} (hlexeme : token'.lexeme = token.lexeme)
    (d? : Option StructDef) (i? : Option ImplDef) :
    (Struct.ofItems token d? i?).Alike (Struct.ofItems token' d? i?) := by
  have hnone : (Struct.ofItems token none none).Alike (Struct.ofItems token' none none) :=
    ⟨token', hlexeme, rfl⟩
  have himpl : (Struct.ofItems token none i?).Alike (Struct.ofItems token' none i?) := by
    cases i? with
    | none => exact hnone
    | some i => exact (hnone.recordForm .implementation).foldl_withMethod i.methods
  cases d? with
  | none => exact himpl
  | some d => exact (himpl.recordForm .structural).foldl_withAttribute d.attributes

theorem of_detached (h : s.detached.Alike s'.detached) (hparent : s'.parent = s.parent)
    (hchildren : s'.children = s.children) : s.Alike s' := by
  obtain ⟨token, hname, heq⟩ := h
  refine ⟨token, hname, ?_⟩
  show { s'.detached with parent := s'.parent, children := s'.children } = _
  rw [heq, hparent, hchildren]
  rfl

end Struct.Alike

namespace SymbolTable.Represents

variable {items items' : List Item} {t t' : SymbolTable} {n : String}

theorem contains_eq (h : Represents items t) (h' : Represents items' t')
    (hperm : items.Perm items') (n : String) : t'.contains n = t.contains n := by
  rw [Bool.eq_iff_iff, h.arranged.contains, h'.arranged.contains, names_iff hperm]

theorem parent?_eq_perm (h : Represents items t) (h' : Represents items' t')
    (hitems : Declarable items) (hperm : items.Perm items') (n : String) :
    t'.parent? n = t.parent? n := by
  have hcontains := h.contains_eq h' hperm
  cases hn : Builtin.structs.contains n with
  | true =>
    by_cases hroot : n = Builtin.root
    · rw [hroot, h.sound.registry.parent?_root, h'.sound.registry.parent?_root]
    · obtain ⟨b, hb⟩ := NameMap.contains_iff.1 hn
      rw [parent?_of_struct? (h.sound.registry.builtin n b hroot hb),
        parent?_of_struct? (h'.sound.registry.builtin n b hroot hb)]
  | false =>
    cases hregistered : t.contains n with
    | true =>
      have hhome : t'.home (Items.parent? items' n) = t.home (Items.parent? items n) := by
        rw [Items.parent?_eq hitems hperm]
        cases Items.parent? items n with
        | none => rfl
        | some q => rw [home, home, hcontains]
      rw [h.arranged.parent n hn hregistered,
        h'.arranged.parent n hn ((hcontains n).trans hregistered), hhome]
    | false =>
      rw [parent?_of_struct?_eq_none (contains_eq_false_iff_struct?.1 hregistered),
        parent?_of_struct?_eq_none
          (contains_eq_false_iff_struct?.1 ((hcontains n).trans hregistered))]

/-- The tables of two lists of the same items are alike. -/
theorem alike (h : Represents items t) (h' : Represents items' t') (hitems : Declarable items)
    (hperm : items.Perm items') : t.Alike t' := by
  have hcontains := h.contains_eq h' hperm
  have hparents := h.parent?_eq_perm h' hitems hperm
  refine ⟨hcontains, fun n s hs => ?_, ?_⟩
  · obtain ⟨s', hs'⟩ := contains_iff_struct?.1
      ((hcontains n).trans (contains_iff_struct?.2 ⟨s, hs⟩))
    have hchildren : s'.children = s.children := by
      refine NameSet.ext_contains fun c => ?_
      rw [Bool.eq_iff_iff, h.sound.hierarchy.faithful n s c hs,
        h'.sound.hierarchy.faithful n s' c hs', Extends, Extends, hparents]
    refine ⟨s', hs', ?_⟩
    cases hn : Builtin.structs.contains n with
    | true =>
      by_cases hroot : n = Builtin.root
      · subst hroot
        obtain ⟨children, hstruct⟩ := h.sound.registry.root
        obtain ⟨children', hstruct'⟩ := h'.sound.registry.root
        cases hs.symm.trans hstruct
        cases hs'.symm.trans hstruct'
        cases hchildren
        exact .refl _
      · obtain ⟨b, hb⟩ := NameMap.contains_iff.1 hn
        have hsame := Option.some.inj (hs.symm.trans (h.sound.registry.builtin n b hroot hb))
        have hsame' := Option.some.inj (hs'.symm.trans (h'.sound.registry.builtin n b hroot hb))
        rw [hsame, hsame']
        exact .refl b
    | false =>
      have hparent : s'.parent = s.parent := by
        rw [← parent?_of_struct? hs, ← parent?_of_struct? hs', hparents]
      have hlexeme : s'.token.lexeme = s.token.lexeme :=
        (h'.sound.registry.name_eq hs').trans (h.sound.registry.name_eq hs).symm
      refine .of_detached ?_ hparent hchildren
      rw [h.record n s hn hs, h'.record n s' hn hs', structDef?_eq hitems hperm,
        implDef?_eq hitems hperm]
      exact .ofItems hlexeme _ _
  · rw [h.start, h'.start, startDefs_eq hitems hperm]

end SymbolTable.Represents

/-- The completed tables of two programs with the same items are alike. -/
theorem Program.declare_alike {p p' : Program} (hperm : p.items.Perm p'.items)
    {t t' : SymbolTable} (hrun : p.declare.run new = .ok () t)
    (hrun' : p'.declare.run new = .ok () t') : t.Alike t' := by
  obtain ⟨⟨⟩, u, hitems, hlast⟩ := run_bind_eq_ok.1 hrun
  obtain ⟨⟨⟩, u', hitems', hlast'⟩ := run_bind_eq_ok.1 hrun'
  have hdeclarable := (exists_run_items p.items).1 ⟨u, hitems⟩
  have h := represents_of_run hitems
  have h' := represents_of_run hitems'
  obtain ⟨_, _, hcompletes⟩ := (consolidate_eq_ok h.sound h.consolidated).1 hlast
  obtain ⟨_, _, hcompletes'⟩ := (consolidate_eq_ok h'.sound h'.consolidated).1 hlast'
  exact (h.alike h' hdeclarable hperm).completes h.sound h'.sound h.rooted hcompletes hcompletes'

/-! ## Bodies -/

/-- The body with the types that a table gives it; what has none loses its sentences. -/
def Body.annotated (t : SymbolTable) (b : Body Unit) : Body Ty :=
  (b.infer t).toOption.getD ⟨b.owner, b.token, b.kind, []⟩

theorem Body.annotated_eq {t : SymbolTable} {b : Body Unit} {b' : Body Ty}
    (h : b.infer t = .ok b') : b.annotated t = b' := by
  rw [annotated, h]
  rfl

theorem Body.mapM_infer_eq_ok {t : SymbolTable} {bodies : List (Body Unit)}
    {checked : List (Body Ty)} : bodies.mapM (Body.infer t) = .ok checked ↔
      (∀ b ∈ bodies, b.infer t = .ok (b.annotated t)) ∧ checked = bodies.map (annotated t) := by
  induction bodies generalizing checked with
  | nil =>
    rw [List.mapM_nil]
    simp [Pure.pure, Except.pure, eq_comm]
  | cons b bodies ih =>
    simp only [List.mapM_cons, bind_eq_ok_iff, ih, List.forall_mem_cons, List.map_cons]
    constructor
    · rintro ⟨b', hb, rest, ⟨hrest, rfl⟩, heq⟩
      cases heq
      rw [annotated_eq hb]
      exact ⟨⟨hb, hrest⟩, rfl⟩
    · rintro ⟨⟨hb, hrest⟩, rfl⟩
      exact ⟨_, hb, _, ⟨hrest, rfl⟩, rfl⟩

namespace Program

variable {p p' : Program} {A A' : Analysis}

theorem analyze_eq_ok : p.analyze = .ok A ↔ ∃ t, p.declare.run new = .ok () t ∧
    (∀ b ∈ p.bodies, b.infer t = .ok (b.annotated t)) ∧
      A = .ofTyped t (p.bodies.map (Body.annotated t)) := by
  rw [analyze_eq]
  cases hrun : p.declare.run new with
  | error e t => simp
  | ok _ t =>
    dsimp only
    rw [map_eq_ok_iff]
    simp only [Body.mapM_infer_eq_ok]
    constructor
    · rintro ⟨_, ⟨htyped, rfl⟩, rfl⟩
      exact ⟨t, rfl, htyped, rfl⟩
    · rintro ⟨_, heq, htyped, rfl⟩
      cases heq
      exact ⟨_, ⟨htyped, rfl⟩, rfl⟩

theorem bodies_perm (hperm : p.items.Perm p'.items) : p.bodies.Perm p'.bodies :=
  hperm.flatMap_right _

/-- In another order of its items an accepted program is accepted, with the same outcome. -/
theorem exists_analyze_perm (hperm : p.items.Perm p'.items) (h : p.analyze = .ok A) :
    ∃ A', p'.analyze = .ok A' ∧ A.table.Alike A'.table ∧
      ∃ annotate : Body Unit → Body Ty, A.bodies = p.bodies.map (fun b => (annotate b).map some) ∧
        A'.bodies = p'.bodies.map (fun b => (annotate b).map some) := by
  obtain ⟨t, hrun, htyped, rfl⟩ := analyze_eq_ok.1 h
  obtain ⟨t', hrun'⟩ := exists_declare_perm hperm ⟨t, hrun⟩
  have halike := declare_alike hperm hrun hrun'
  have htyped' : ∀ b ∈ p'.bodies, b.infer t' = .ok (b.annotated t) := fun b hb =>
    halike.embeds.infer_body (htyped b ((bodies_perm hperm).mem_iff.2 hb))
  have hsame : p'.bodies.map (Body.annotated t') = p'.bodies.map (Body.annotated t) :=
    List.map_congr_left fun b hb => Body.annotated_eq (htyped' b hb)
  refine ⟨.ofTyped t' (p'.bodies.map (Body.annotated t)), analyze_eq_ok.2 ⟨t', hrun', ?_, ?_⟩, ?_,
    Body.annotated t, List.map_map, List.map_map⟩
  · intro b hb
    rw [Body.annotated_eq (htyped' b hb), htyped' b hb]
  · rw [hsame]
  · -- both programs create the same structs
    have hcreated := NameSet.ofList_eq_of_mem_iff fun name =>
      ((((bodies_perm hperm).map (Body.annotated t)).flatMap_right (·.block.created)).mem_iff
        (a := name))
    rw [Analysis.ofTyped, Analysis.ofTyped, hcreated]
    exact halike.markCreated _

/-- The order of the items does not matter: two programs with the same items are both accepted or
both refused, and then their tables differ in nothing but the tokens of structs, and every body of
an item has the same types. -/
theorem analyze_perm (hperm : p.items.Perm p'.items) :
    ((∃ A, p.analyze = .ok A) ↔ ∃ A', p'.analyze = .ok A') ∧
    ∀ A A', p.analyze = .ok A → p'.analyze = .ok A' →
      A.table.Alike A'.table ∧
      ∃ annotate : Body Unit → Body Ty,
        A.bodies = p.items.flatMap (fun item => item.bodies.map fun b => (annotate b).map some) ∧
        A'.bodies =
          p'.items.flatMap (fun item => item.bodies.map fun b => (annotate b).map some) := by
  refine ⟨⟨?_, ?_⟩, fun A A' h h' => ?_⟩
  · rintro ⟨A, h⟩
    obtain ⟨A', h', _⟩ := exists_analyze_perm hperm h
    exact ⟨A', h'⟩
  · rintro ⟨A', h'⟩
    obtain ⟨A, h, _⟩ := exists_analyze_perm hperm.symm h'
    exact ⟨A, h⟩
  · obtain ⟨_, hfound, halike, annotate, hbodies, hbodies'⟩ := exists_analyze_perm hperm h
    cases h'.symm.trans hfound
    refine ⟨halike, annotate, ?_, ?_⟩
    · rw [hbodies, bodies, List.map_flatMap]
    · rw [hbodies', bodies, List.map_flatMap]

/-- A struct `B` before its parent `A`, with an impl block before the struct item and a method that
returns an attribute, and a start item that creates a `B`. -/
def inheritingItems : List Item :=
  let struct (name : String) := Token.builtin .structId name
  let member (name : String) := Token.builtin .objectId name
  let int := Token.builtin .intType "Int"
  let named (token : Token) : Chain Unit := ⟨⟨token, .simple, ()⟩, []⟩
  let created : Chain Unit := ⟨⟨struct "B", .newInstance [], ()⟩, []⟩
  [.struct ⟨struct "B", some (struct "A"), []⟩,
   .impl ⟨struct "B", [⟨member ".", .constructor, [], none, [], []⟩]⟩,
   .impl ⟨struct "A", [⟨member ".", .constructor, [], none, [], []⟩,
    ⟨member "f", .onInstance, [], some int, [],
      [.giveBack (member "ret") (some (.access (named (member "x"))))]⟩]⟩,
   .struct ⟨struct "A", none, [⟨member "x", int, true⟩]⟩,
   .start ⟨.builtin .startWord "start", [⟨member "b", struct "B"⟩],
    [.assignment (named (member "b")) (member "=") (.access created)]⟩]

theorem analyze_perm_of_inheritingItems :
    let p : Program := ⟨inheritingItems⟩
    let p' : Program := ⟨inheritingItems.reverse⟩
    p.items.Perm p'.items ∧ ∃ A A', p.analyze = .ok A ∧ p'.analyze = .ok A' ∧
      A.table.Alike A'.table ∧
      ∃ annotate : Body Unit → Body Ty,
        A.bodies = p.items.flatMap (fun item => item.bodies.map fun b => (annotate b).map some) ∧
        A'.bodies =
          p'.items.flatMap (fun item => item.bodies.map fun b => (annotate b).map some) := by
  intro p p'
  have hperm : p.items.Perm p'.items := (List.reverse_perm _).symm
  obtain ⟨hiff, hsame⟩ := analyze_perm hperm
  have hok : p.analyze.isOk = true := by decide +kernel
  obtain ⟨A, h⟩ := exists_of_isOk hok
  obtain ⟨A', h'⟩ := hiff.1 ⟨A, h⟩
  exact ⟨hperm, A, A', h, h', hsame A A' h h'⟩

end Program

end StructLang
