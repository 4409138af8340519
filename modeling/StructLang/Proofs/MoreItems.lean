import StructLang.Layout
import StructLang.Proofs.Completion
import StructLang.Proofs.ItemOrder

/-!
# Programs with more items

What is added to an accepted program does not disturb it.  The added items may inherit from its
structs, use them as types and create them, and they may stand anywhere among its items.  As long as
the whole is accepted, every struct of the program has the parent and the layout that it has without
them, and every body has the same types.

An accepted program declares whatever it refers to.  So the items of a name are the same in both
lists, and so is the registered parent (`Represents.embeds`); the tables that are completed from
there are one within the other (`Program.declare_embeds`).
-/

namespace StructLang

open Items SymbolTable

/-! ## What a longer list says -/

namespace Items

variable {items items' : List Item} {n : String}

theorem structDefs_subset (hsubset : items ⊆ items') : structDefs items ⊆ structDefs items' :=
  fun _ hd => mem_structDefs.2 (hsubset (mem_structDefs.1 hd))

theorem implDefs_subset (hsubset : items ⊆ items') : implDefs items ⊆ implDefs items' :=
  fun _ hd => mem_implDefs.2 (hsubset (mem_implDefs.1 hd))

theorem names_of_subset (hsubset : items ⊆ items') (hn : Names items n) : Names items' n :=
  hn.imp (fun h => List.map_subset _ (structDefs_subset hsubset) h)
    fun h => List.map_subset _ (implDefs_subset hsubset) h

theorem structDef?_of_subset (h : Declarable items') (hsubset : items ⊆ items') {d : StructDef}
    (hd : structDef? items n = some d) : structDef? items' n = some d := by
  have hname := List.find?_some hd
  refine (structDef?_eq_some_iff h.structNames).2 ⟨?_, by simpa using hname⟩
  exact structDefs_subset hsubset (List.mem_of_find?_eq_some hd)

theorem implDef?_of_subset (h : Declarable items') (hsubset : items ⊆ items') {d : ImplDef}
    (hd : implDef? items n = some d) : implDef? items' n = some d := by
  have hname := List.find?_some hd
  refine (implDef?_eq_some_iff h.implNames).2 ⟨?_, by simpa using hname⟩
  exact implDefs_subset hsubset (List.mem_of_find?_eq_some hd)

/-- The start item is still the only one. -/
theorem head?_startDefs_of_subset (h : Declarable items') (hsubset : items ⊆ items') {d : StartDef}
    (hd : (startDefs items).head? = some d) : (startDefs items').head? = some d := by
  have hmem : d ∈ startDefs items' :=
    mem_startDefs.2 (hsubset (mem_startDefs.1 (List.mem_of_head? hd)))
  have hlength := h.starts
  match hdefs : startDefs items' with
  | [] =>
    rw [hdefs] at hmem
    cases hmem
  | [e] =>
    rw [hdefs] at hmem
    rw [List.mem_singleton.1 hmem]
    rfl
  | _ :: _ :: _ =>
    rw [hdefs] at hlength
    simp at hlength

end Items

/-! ## Tables of longer lists -/

theorem Struct.Resembles.of_detached {s s' : Struct} (h : s.detached.Alike s'.detached)
    (hparent : s'.parent = s.parent) : s.Resembles s' := by
  obtain ⟨token, hname, heq⟩ := h
  refine ⟨token, s'.children, hname, ?_⟩
  show { s'.detached with parent := s'.parent, children := s'.children } = _
  rw [heq, hparent]
  rfl

namespace SymbolTable.Represents

variable {items items' : List Item} {t t' : SymbolTable} {n : String}

theorem contains_of_subset (h : Represents items t) (h' : Represents items' t')
    (hsubset : items ⊆ items') (hn : t.contains n = true) : t'.contains n = true := by
  rw [h.arranged.contains] at hn
  rw [h'.arranged.contains]
  exact hn.imp_right (names_of_subset hsubset)

/-- A struct has the same parent in the table of a longer list: the parent that its item names is
registered in both. -/
theorem parent_of_subset (h : Represents items t) (h' : Represents items' t')
    (hitems' : Declarable items') (hsubset : items ⊆ items')
    (hparents : ∀ c q, Items.parent? items c = some q → t.contains q.lexeme = true)
    {d : StructDef} (hd : structDef? items n = some d)
    (huser : Builtin.structs.contains n = false) (hn : t.contains n = true) :
    t'.parent? n = t.parent? n := by
  have hparent : Items.parent? items' n = Items.parent? items n := by
    rw [Items.parent?, structDef?_of_subset hitems' hsubset hd, Items.parent?, hd]
  have hhome : t'.home (Items.parent? items n) = t.home (Items.parent? items n) := by
    cases hq : Items.parent? items n with
    | none => rfl
    | some q =>
      have hregistered := hparents n q hq
      rw [home, home, if_pos hregistered, if_pos (h.contains_of_subset h' hsubset hregistered)]
  rw [h.arranged.parent n huser hn,
    h'.arranged.parent n huser (h.contains_of_subset h' hsubset hn), hparent, hhome]

/-- The table of a list in which nothing is missing is within the table of every longer list. -/
theorem embeds (h : Represents items t) (h' : Represents items' t') (hcomplete : t.Complete)
    (hitems' : Declarable items') (hsubset : items ⊆ items') : t.Embeds t' := by
  obtain ⟨hparents, _, hparts⟩ := h.complete_iff.1 hcomplete
  refine ⟨fun n s hs => ?_, fun m hm => ?_⟩
  · have hregistered := contains_iff_struct?.2 ⟨s, hs⟩
    obtain ⟨s', hs'⟩ := contains_iff_struct?.1 (h.contains_of_subset h' hsubset hregistered)
    refine ⟨s', hs', ?_⟩
    cases huser : Builtin.structs.contains n with
    | true =>
      obtain ⟨b, hb⟩ := NameMap.contains_iff.1 huser
      by_cases hroot : n = Builtin.root
      · subst hroot
        obtain ⟨children, hstruct⟩ := h.sound.registry.root
        obtain ⟨children', hstruct'⟩ := h'.sound.registry.root
        cases hs.symm.trans hstruct
        cases hs'.symm.trans hstruct'
        exact ⟨_, children', rfl, rfl⟩
      · have hsame := Option.some.inj (hs.symm.trans (h.sound.registry.builtin n b hroot hb))
        have hsame' := Option.some.inj (hs'.symm.trans (h'.sound.registry.builtin n b hroot hb))
        rw [hsame, hsame']
        exact (Struct.Alike.refl b).resembles
    | false =>
      have hnames := ((h.arranged.contains n).1 hregistered).resolve_left (by rw [huser]; nofun)
      obtain ⟨⟨d, hd⟩, i, hi, _⟩ := hparts n hnames
      have hparent : s'.parent = s.parent := by
        rw [← parent?_of_struct? hs, ← parent?_of_struct? hs',
          h.parent_of_subset h' hitems' hsubset hparents hd huser hregistered]
      have hlexeme : s'.token.lexeme = s.token.lexeme :=
        (h'.sound.registry.name_eq hs').trans (h.sound.registry.name_eq hs).symm
      refine .of_detached ?_ hparent
      rw [h.record n s huser hs, h'.record n s' huser hs', hd, hi,
        structDef?_of_subset hitems' hsubset hd, implDef?_of_subset hitems' hsubset hi]
      exact .ofItems hlexeme _ _
  · rw [h.start] at hm
    obtain ⟨d, hd, rfl⟩ := Option.map_eq_some_iff.1 hm
    rw [h'.start, head?_startDefs_of_subset hitems' hsubset hd]
    rfl

end SymbolTable.Represents

/-- The completed table of a program is within that of every accepted program with more items. -/
theorem Program.declare_embeds {p r : Program} (hsubset : p.items ⊆ r.items) {t t' : SymbolTable}
    (hrun : p.declare.run new = .ok () t) (hrun' : r.declare.run new = .ok () t') :
    t.Embeds t' := by
  obtain ⟨⟨⟩, u, hitems, hlast⟩ := run_bind_eq_ok.1 hrun
  obtain ⟨⟨⟩, u', hitems', hlast'⟩ := run_bind_eq_ok.1 hrun'
  have h := represents_of_run hitems
  have h' := represents_of_run hitems'
  obtain ⟨hcomplete, _, hcompletes⟩ := (consolidate_eq_ok h.sound h.consolidated).1 hlast
  obtain ⟨_, _, hcompletes'⟩ := (consolidate_eq_ok h'.sound h'.consolidated).1 hlast'
  have hdeclarable := (exists_run_items r.items).1 ⟨u', hitems'⟩
  exact (h.embeds h' hcomplete hdeclarable hsubset).completes h.sound h'.sound h.rooted h'.rooted
    hcompletes hcompletes'

/-! ## Layouts -/

namespace SymbolTable

variable {t t' : SymbolTable} {n : String}

theorem Embeds.dispatchTable? (h : t.Embeds t') {d : DispatchTable}
    (hd : t.dispatchTable? n = some d) : t'.dispatchTable? n = some d := by
  obtain ⟨s, hs, rfl⟩ := Option.map_eq_some_iff.1 hd
  obtain ⟨_, hs', token, children, hname, rfl⟩ := h.structs n s hs
  refine Option.map_eq_some_iff.2 ⟨_, hs', ?_⟩
  have hsame : ({ s with token, children } : Struct).name = s.name := hname
  unfold DispatchTable.ofStruct
  rw [hsame]
  rfl

theorem parent?_markCreated (t : SymbolTable) (created : NameSet) (n : String) :
    (t.markCreated created).parent? n = t.parent? n := by
  rw [parent?, struct?_markCreated, parent?, Option.bind_map]
  rfl

theorem dispatchTable?_markCreated (t : SymbolTable) (created : NameSet) (n : String) :
    (t.markCreated created).dispatchTable? n = t.dispatchTable? n := by
  rw [dispatchTable?, struct?_markCreated, dispatchTable?, Option.map_map]
  rfl

end SymbolTable

namespace Program

variable {p r : Program} {A B : Analysis}

/-- Every struct that an accepted program declares has a parent and a layout in its table. -/
theorem exists_parent_of_declare {t : SymbolTable} (hrun : p.declare.run new = .ok () t)
    {n : String} (hn : Names p.items n) :
    (∃ q, t.parent? n = some q) ∧ ∃ d, t.dispatchTable? n = some d := by
  obtain ⟨⟨⟩, u, hitems, hlast⟩ := run_bind_eq_ok.1 hrun
  have h := represents_of_run hitems
  obtain ⟨hcomplete, hmerges, hcompletes⟩ := (consolidate_eq_ok h.sound h.consolidated).1 hlast
  have hcompletion : Completion u t := ⟨h.sound, hcomplete, hmerges, hcompletes⟩
  have hregistered := (h.arranged.contains n).2 (.inr hn)
  obtain ⟨s, hs⟩ := contains_iff_struct?.1 ((hcompletion.contains_eq n).trans hregistered)
  have hparent := h.arranged.parent n (h.arranged.user n hn) hregistered
  exact ⟨⟨_, (hcompletion.parent?_eq n).trans hparent⟩, _, Option.map_eq_some_iff.2 ⟨s, hs, rfl⟩⟩

/-- An accepted program is not disturbed by more items: in an accepted program that has all its
items, every struct that it declares has the same parent and the same layout, and every body has the
same types. -/
theorem analyze_undisturbed (hsubset : p.items ⊆ r.items) (hA : p.analyze = .ok A)
    (hB : r.analyze = .ok B) :
    (∀ n, Names p.items n →
      (∃ q, A.table.parent? n = some q ∧ B.table.parent? n = some q) ∧
      ∃ d, A.table.dispatchTable? n = some d ∧ B.table.dispatchTable? n = some d) ∧
    ∃ annotate : Body Unit → Body Ty,
      A.bodies = p.items.flatMap (fun item => item.bodies.map fun b => (annotate b).map some) ∧
      B.bodies = r.items.flatMap (fun item => item.bodies.map fun b => (annotate b).map some) := by
  obtain ⟨t, hrun, htyped, rfl⟩ := analyze_eq_ok.1 hA
  obtain ⟨t', hrun', _, rfl⟩ := analyze_eq_ok.1 hB
  have hembeds := declare_embeds hsubset hrun hrun'
  refine ⟨fun n hn => ?_, Body.annotated t', ?_, ?_⟩
  · obtain ⟨⟨q, hq⟩, d, hd⟩ := exists_parent_of_declare hrun hn
    simp only [Analysis.ofTyped, parent?_markCreated, dispatchTable?_markCreated]
    exact ⟨⟨q, hq, hembeds.parent? hq⟩, d, hd, hembeds.dispatchTable? hd⟩
  · rw [Analysis.ofTyped, ← List.map_flatMap, List.map_map]
    refine List.map_congr_left fun b hb => ?_
    exact congrArg (Body.map some)
      (Body.annotated_eq (hembeds.infer_body (htyped b hb))).symm
  · rw [Analysis.ofTyped, ← List.map_flatMap, List.map_map]
    rfl

/-- A struct `C` under `B` with an attribute of type `A`, whose method `f` overrides that of `A`. -/
def inheritingMore : List Item :=
  let struct (name : String) := Token.builtin .structId name
  let member (name : String) := Token.builtin .objectId name
  let int := Token.builtin .intType "Int"
  let one : Chain Unit := ⟨⟨.builtin .intLiteral "1", .simple, ()⟩, []⟩
  [.impl ⟨struct "C", [⟨member ".", .constructor, [], none, [], []⟩,
    ⟨member "f", .onInstance, [], some int, [],
      [.giveBack (member "ret") (some (.access one))]⟩]⟩,
   .struct ⟨struct "C", some (struct "B"), [⟨member "y", struct "A", false⟩]⟩]

theorem analyze_undisturbed_of_inheritingMore :
    let p : Program := ⟨inheritingItems⟩
    let r : Program := ⟨inheritingItems.take 2 ++ inheritingMore.take 1 ++ inheritingItems.drop 2 ++
      inheritingMore.drop 1⟩
    p.items ⊆ r.items ∧ ∃ A B, p.analyze = .ok A ∧ r.analyze = .ok B ∧
      (∀ n, Names p.items n →
        (∃ q, A.table.parent? n = some q ∧ B.table.parent? n = some q) ∧
        ∃ d, A.table.dispatchTable? n = some d ∧ B.table.dispatchTable? n = some d) ∧
      ∃ annotate : Body Unit → Body Ty,
        A.bodies = p.items.flatMap (fun item => item.bodies.map fun b => (annotate b).map some) ∧
        B.bodies =
          r.items.flatMap (fun item => item.bodies.map fun b => (annotate b).map some) := by
  intro p r
  have hsubset : p.items ⊆ r.items := by
    intro item hitem
    rw [← List.take_append_drop 2 p.items] at hitem
    refine List.mem_append_left _ ?_
    rcases List.mem_append.1 hitem with hfirst | hlast
    · exact List.mem_append_left _ (List.mem_append_left _ hfirst)
    · exact List.mem_append_right _ hlast
  have hok : p.analyze.isOk = true := by decide +kernel
  have hok' : r.analyze.isOk = true := by decide +kernel
  obtain ⟨A, hA⟩ := exists_of_isOk hok
  obtain ⟨B, hB⟩ := exists_of_isOk hok'
  exact ⟨hsubset, A, B, hA, hB, analyze_undisturbed hsubset hA hB⟩

end Program

end StructLang
