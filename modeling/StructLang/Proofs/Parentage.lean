import StructLang.Proofs.Completion

/-!
# The parents of declared structs

A struct waits under the root until its parent is declared, and a call that fails may still move
structs: one that closes a cycle leaves the cycle behind.  Nevertheless, in a completed table the
parent of every declared struct is the one that its struct item names, and there is one accepted
struct item only (`parentage_of_consolidate`).

* `structItems` reads the parents that accepted struct items name off the calls.
* `Settled` says where a struct stands whose struct item has been accepted.  A refused call moves
  no such struct, and an accepted one moves it only if it waits for the declared name
  (`Settled.place`).
* `Recorded` relates the table and the accepted struct items, and every call keeps it
  (`Recorded.call`).
-/

namespace StructLang

/-- The parent that a call names, if it is the struct item of `n`. -/
def Call.itemParents (n : String) : Call → List (Option Token)
  | struct token parent .structural => if token.lexeme = n then [parent] else []
  | _ => []

namespace SymbolTable

variable {t t' : SymbolTable} {n p : String} {s s' : Struct}

/-- The parents that accepted struct items of `n` name, in the order of the calls. -/
def structItems (n : String) : SymbolTable → List Call → List (Option Token)
  | _, [] => []
  | t, call :: calls =>
    (if succeeds call.run t then call.itemParents n else []) ++
      structItems n (stateAfter call.run t) calls

/-! ## Where a struct stands -/

/-- A struct stands where its struct item has put it: under the named parent, or under the root and
waiting for the parent. -/
structure Settled (t : SymbolTable) (n : String) (parent : Option Token) : Prop where
  stands : t.Extends n (t.home parent)
  waits : ∀ p, n ∈ t.orphans p ↔ parent.map (·.lexeme) = some p ∧ t.contains p = false

/-- The struct item of a declared struct has been accepted. -/
def Firm (t : SymbolTable) (n : String) : Prop := t.contains n = true ∧ ¬ t.Loose n

/-- The accepted struct items of a declared struct name the given parents. -/
inductive Recorded (t : SymbolTable) (n : String) : List (Option Token) → Prop where
  | absent (h : ¬ t.Firm n) : Recorded t n []
  | accepted {parent : Option Token} (h : t.Firm n) (hsettled : t.Settled n parent) :
      Recorded t n [parent]

theorem Settled.congr {parent : Option Token} (hsettled : t.Settled n parent)
    (h : t.SameTree t') : t'.Settled n parent := by
  refine ⟨?_, ?_⟩
  · have hhome : t'.home parent = t.home parent := by
      cases parent with
      | none => rfl
      | some p => simp only [home, h.contains_eq]
    rw [h.extends_eq, hhome]
    exact hsettled.stands
  · intro p
    rw [h.orphans_eq, h.contains_eq]
    exact hsettled.waits p

section Place

variable {token : Token} {parent own : Option Token} {form : Form}

theorem home_place (hne : ∀ p, parent = some p → p.lexeme ≠ token.lexeme) (q : Option Token) :
    (t.place token parent form).home q =
      if q.map (·.lexeme) = some token.lexeme then token.lexeme else t.home q := by
  cases q with
  | none => rfl
  | some q =>
    simp only [home, contains_place hne]
    by_cases hq : q.lexeme = token.lexeme <;> simp [hq]

theorem firm_place (hfree : t.structRefusal? token parent form = none) :
    (t.place token parent form).Firm n ↔ t.Firm n := by
  have hne := fun p hp => ((structRefusal?_eq_none_iff.1 hfree).2.2 p hp).2
  unfold Firm
  rw [contains_place hne, loose_place hfree]
  by_cases hn : n = token.lexeme
  · subst hn
    cases t.contains token.lexeme <;> simp
  · simp [hn]

theorem firm_enroll {name : String} (hname : t.contains name = true) :
    (t.enroll name form).Firm n ↔ t.Firm n ∨ n = name ∧ form = .structural := by
  unfold Firm
  rw [(sameTree_enroll t name form).contains_eq, loose_enroll]
  by_cases hn : n = name ∧ form = .structural
  · rw [hn.1]
    simp [hn.2, hname]
  · simp [hn]

/-- A struct whose struct item has been accepted moves only when it waits for the declared name. -/
theorem Settled.place (hsettled : t.Settled n own) (h : t.Hierarchy)
    (hfree : t.structRefusal? token parent form = none)
    (hform : form = .implementation → parent = none)
    (hstays : n = token.lexeme → form = .implementation) :
    (t.place token parent form).Settled n own := by
  have hne := fun p hp => ((structRefusal?_eq_none_iff.1 hfree).2.2 p hp).2
  have hmoved : ¬ (n = token.lexeme ∧ (t.contains token.lexeme = false ∨ form = .structural)) := by
    intro hown
    obtain ⟨rfl, hnew | hstructural⟩ := hown
    · rw [hsettled.stands.contains] at hnew
      cases hnew
    · rw [hstays rfl] at hstructural
      cases hstructural
  refine ⟨?_, ?_⟩
  · unfold Extends
    rw [parent?_place hne fun c hc => h.contains_orphan hc, home_place hne]
    by_cases hwaits : n ∈ t.orphans token.lexeme
    · rw [if_pos hwaits, if_pos ((hsettled.waits _).1 hwaits).1]
    · rw [if_neg hwaits, if_neg hmoved]
      have hstands : t.parent? n = some (t.home own) := hsettled.stands
      rw [hstands]
      by_cases hnamed : own.map (·.lexeme) = some token.lexeme
      · -- the named parent was registered before
        have hregistered : t.contains token.lexeme = true := by
          by_contra hnew
          exact hwaits ((hsettled.waits _).2 ⟨hnamed, Bool.eq_false_iff.2 hnew⟩)
        obtain ⟨q, rfl, hq⟩ := Option.map_eq_some_iff.1 hnamed
        rw [if_pos hnamed, home, hq, if_pos hregistered]
      · rw [if_neg hnamed]
  · intro p
    have hnot : ¬ (n = token.lexeme ∧ t.contains p = false ∧ parent.map (·.lexeme) = some p) := by
      intro hown
      have hnone := hform (hstays hown.1)
      rw [hnone] at hown
      cases hown.2.2
    rw [mem_orphans_place hne, or_iff_left hnot, hsettled.waits, contains_place hne]
    by_cases hp : p = token.lexeme
    · simp [hp]
    · simp [hp]

/-- The struct item puts its struct where it belongs. -/
theorem settled_place (h : t.Sound) (hfree : t.structRefusal? token parent .structural = none) :
    (t.place token parent .structural).Settled token.lexeme parent := by
  have hne := fun p hp => ((structRefusal?_eq_none_iff.1 hfree).2.2 p hp).2
  have hself : parent.map (·.lexeme) ≠ some token.lexeme := by
    intro heq
    obtain ⟨p, hp, hlexeme⟩ := Option.map_eq_some_iff.1 heq
    exact hne p hp hlexeme
  have hfresh : ∀ p, token.lexeme ∉ t.orphans p := fun p =>
    not_mem_orphans h.hierarchy h.forms hfree
  refine ⟨?_, ?_⟩
  · unfold Extends
    rw [parent?_place hne fun c hc => h.hierarchy.contains_orphan hc, if_neg (hfresh _),
      if_pos ⟨rfl, .inr rfl⟩, home_place hne, if_neg hself]
  · intro p
    rw [mem_orphans_place hne, contains_place hne]
    by_cases hp : p = token.lexeme
    · rw [hp]
      simp [hself]
    · simp [hp, hfresh, and_comm]

end Place

/-! ## Calls for members -/

/-- Neither the tree nor the accepted struct items change. -/
structure KeepsItems (t t' : SymbolTable) : Prop where
  tree : t.SameTree t'
  loose_iff : ∀ n, t'.Loose n ↔ t.Loose n

namespace KeepsItems

theorem trans {t'' : SymbolTable} (h : t.KeepsItems t') (h' : t'.KeepsItems t'') :
    t.KeepsItems t'' where
  tree := ⟨fun n => (h'.tree.node n).trans (h.tree.node n), h'.tree.pending.trans h.tree.pending⟩
  loose_iff n := (h'.loose_iff n).trans (h.loose_iff n)

theorem of_structs_eq (hstructs : t'.structs = t.structs)
    (hpending : t'.pendingParents = t.pendingParents) : t.KeepsItems t' := by
  have hstruct : ∀ n, t'.struct? n = t.struct? n := by
    intro n
    unfold struct?
    rw [hstructs]
  refine ⟨⟨fun n => by rw [hstruct], hpending⟩, ?_⟩
  intro n
  unfold Loose
  rw [hstruct]

theorem of_updates (hupdates : t.Updates n s s' t')
    (hpending : t'.pendingParents = t.pendingParents) (hmembers : s.MembersChange s') :
    t.KeepsItems t' := by
  obtain ⟨methods, attributes, constructor, i, j, rfl⟩ := hmembers
  exact ⟨hupdates.sameTree hpending rfl rfl, hupdates.loose_iff rfl⟩

theorem noteType (t : SymbolTable) (token : Token) : t.KeepsItems (t.noteType token) :=
  of_structs_eq (structs_noteType t token) (pendingParents_noteType t token)

theorem setOpenMethod (h : t.Sound) (m : Method) : t.KeepsItems (t.setOpenMethod m) := by
  unfold SymbolTable.setOpenMethod
  cases hscope : t.scope with
  | closed | struct owner | start => exact of_structs_eq rfl rfl
  | constructor owner =>
    obtain ⟨huser, hregistered⟩ := h.contents.scope owner (by rw [hscope]; rfl)
    obtain ⟨s, hs⟩ := contains_iff_struct?.1 hregistered
    have hset := NameMap.modify_eq_insert hs fun s => { s with constructor := some m }
    exact of_updates (.of_insert huser hs hset) rfl ⟨_, _, _, _, _, rfl⟩
  | method owner name =>
    obtain ⟨huser, hregistered⟩ := h.contents.scope owner (by rw [hscope]; rfl)
    obtain ⟨s, hs⟩ := contains_iff_struct?.1 hregistered
    have hset := NameMap.modify_eq_insert hs fun s => { s with methods := s.methods.insert name m }
    exact of_updates (.of_insert huser hs hset) rfl ⟨_, _, _, _, _, rfl⟩

theorem modifyOpenMethod (h : t.Sound) (token : Token) (f : Method → Except SemanticError Method) :
    t.KeepsItems (stateAfter (modifyOpenMethod token f) t) := by
  unfold stateAfter
  rw [run_modifyOpenMethod]
  cases t.openMethod? with
  | none => exact of_structs_eq rfl rfl
  | some m =>
    simp only [Option.map_some]
    cases f m with
    | error e => exact of_structs_eq rfl rfl
    | ok m' => exact setOpenMethod h m'

theorem declareMethod (h : t.Sound) (token : Token) (kind : MethodKind)
    (returnType : Option Token) :
    t.KeepsItems (stateAfter (declareMethod token kind returnType) t) := by
  unfold stateAfter
  by_cases hkind : kind = .start
  · subst hkind
    rw [run_declareMethod_start]
    cases t.start <;> exact of_structs_eq rfl rfl
  · have hsound := h.reaches (reaches_noteOptional t (returnToken kind returnType))
    have hnoted : t.KeepsItems (t.noteOptional (returnToken kind returnType)) := by
      cases returnToken kind returnType with
      | none => exact of_structs_eq rfl rfl
      | some token => exact noteType t token
    refine hnoted.trans ?_
    rw [run_declareMethod token hkind, run_declareTyped]
    generalize t.noteOptional (returnToken kind returnType) = u at hsound
    cases howner : u.scope.struct? with
    | none => exact of_structs_eq rfl rfl
    | some owner =>
      obtain ⟨huser, hregistered⟩ := hsound.contents.scope owner howner
      obtain ⟨s, hs⟩ := contains_iff_struct?.1 hregistered
      simp only [hs, Option.map_some]
      cases hadd : s.addMethod token kind (typeOf (returnToken kind returnType)) with
      | error e => exact of_structs_eq rfl rfl
      | ok s' =>
        exact of_updates (.of_insert huser hs rfl) rfl (Struct.membersChange_addMethod hadd)

theorem declareVar (h : t.Sound) (token type : Token) (isPrivate : Bool) :
    t.KeepsItems (stateAfter (declareVar token type isPrivate) t) := by
  have hsound : (t.noteType type).Sound := h.reaches (.single (.note t type))
  have hlocal := modifyOpenMethod hsound token (·.addLocal token (Ty.ofName type.lexeme))
  refine (noteType t type).trans ?_
  unfold stateAfter at hlocal ⊢
  rw [run_declareVar]
  cases hscope : t.scope with
  | closed => exact of_structs_eq rfl rfl
  | start | constructor owner | method owner name => exact hlocal
  | struct owner =>
    have hscope' : (t.noteType type).scope.struct? = some owner := by
      rw [scope_noteType, hscope]
      rfl
    obtain ⟨huser, hregistered⟩ := hsound.contents.scope owner hscope'
    obtain ⟨s, hs⟩ := contains_iff_struct?.1 hregistered
    have hnoted : t.struct? owner = some s := (struct?_noteType t type owner).symm.trans hs
    simp only [hnoted, Option.map_some]
    cases hadd : s.addAttribute token (Ty.ofName type.lexeme) isPrivate with
    | error e => exact of_structs_eq rfl rfl
    | ok s' =>
      exact of_updates (.of_insert huser hs rfl) rfl (Struct.membersChange_addAttribute hadd)

theorem declareParam (h : t.Sound) (token type : Token) :
    t.KeepsItems (stateAfter (declareParam token type) t) := by
  have hsound : (t.noteType type).Sound := h.reaches (.single (.note t type))
  refine (noteType t type).trans ?_
  unfold stateAfter
  rw [run_declareParam]
  exact modifyOpenMethod hsound token _

theorem recorded (h : t.KeepsItems t') {items : List (Option Token)} (hitems : t.Recorded n items) :
    t'.Recorded n items := by
  have hfirm : t'.Firm n ↔ t.Firm n := by
    unfold Firm
    rw [h.tree.contains_eq, h.loose_iff]
  cases hitems with
  | absent hnot => exact .absent (mt hfirm.1 hnot)
  | accepted hyes hsettled => exact .accepted (hfirm.2 hyes) (hsettled.congr h.tree)

end KeepsItems

/-! ## All calls -/

section Struct

variable {token : Token} {parent : Option Token} {form : Form} {items : List (Option Token)}

theorem not_firm_of_free (hfree : t.structRefusal? token parent .structural = none) :
    ¬ t.Firm token.lexeme := by
  intro hfirm
  obtain ⟨hreserved, hfresh, _⟩ := structRefusal?_eq_none_iff.1 hfree
  obtain ⟨s, hs⟩ := contains_iff_struct?.1 hfirm.1
  have hstructural : s.structural = false := hfresh s hs
  apply hfirm.2
  exact ⟨Builtin.contains_eq_false_of_not_reserved hreserved, by
    rw [hs, Option.map_some, hstructural]⟩

/-- Until its form is recorded, a declaration changes nothing that is settled. -/
theorem Recorded.place (hitems : t.Recorded n items) (h : t.Sound)
    (hfree : t.structRefusal? token parent form = none)
    (hform : form = .implementation → parent = none) :
    (t.place token parent form).Recorded n items := by
  cases hitems with
  | absent hnot => exact .absent (mt (firm_place hfree).1 hnot)
  | accepted hfirm hsettled =>
    refine .accepted ((firm_place hfree).2 hfirm) (hsettled.place h.hierarchy hfree hform ?_)
    rintro rfl
    cases form with
    | structural => exact absurd hfirm (not_firm_of_free hfree)
    | implementation => rfl

/-- Recording a form matters to the struct whose struct item it is. -/
theorem Recorded.enroll (hitems : t.Recorded n items) {name : String}
    (hname : t.contains name = true) (hother : ¬ (n = name ∧ form = .structural)) :
    (t.enroll name form).Recorded n items := by
  have hfirm : (t.enroll name form).Firm n ↔ t.Firm n := by
    rw [firm_enroll hname, or_iff_left hother]
  cases hitems with
  | absent hnot => exact .absent (mt hfirm.1 hnot)
  | accepted hyes hsettled =>
    exact .accepted (hfirm.2 hyes) (hsettled.congr (sameTree_enroll t name form))

theorem Recorded.placed (hitems : t.Recorded n items) (h : t.Sound)
    (hfree : t.structRefusal? token (parentToken form parent) form = none) :
    ((t.place token (parentToken form parent) form).enroll token.lexeme form).Recorded n
      (items ++ (Call.struct token parent form).itemParents n) := by
  have hne := fun p hp => ((structRefusal?_eq_none_iff.1 hfree).2.2 p hp).2
  have hcontains : (t.place token (parentToken form parent) form).contains token.lexeme = true := by
    rw [contains_place hne]
    simp
  have hform : form = .implementation → parentToken form parent = none := by
    rintro rfl
    rfl
  by_cases hitem : n = token.lexeme ∧ form = .structural
  · obtain ⟨rfl, rfl⟩ := hitem
    cases hitems with
    | accepted hfirm => exact absurd hfirm (not_firm_of_free hfree)
    | absent =>
      have hnamed : (Call.struct token parent .structural).itemParents token.lexeme = [parent] :=
        if_pos rfl
      rw [hnamed, List.nil_append]
      refine .accepted ((firm_enroll hcontains).2 (.inr ⟨rfl, rfl⟩)) ?_
      exact (settled_place h hfree).congr (sameTree_enroll _ _ _)
  · have hnamed : (Call.struct token parent form).itemParents n = [] := by
      cases form with
      | structural => exact if_neg fun heq => hitem ⟨heq.symm, rfl⟩
      | implementation => rfl
    rw [hnamed, List.append_nil]
    exact (hitems.place h hfree hform).enroll hcontains hitem

theorem Recorded.declareStruct (hitems : t.Recorded n items) (h : t.Sound) (token : Token)
    (parent : Option Token) (form : Form) :
    (stateAfter (declareStruct token parent form) t).Recorded n
      (items ++ if succeeds (declareStruct token parent form) t
        then (Call.struct token parent form).itemParents n else []) := by
  unfold stateAfter succeeds
  rw [run_declareStruct]
  cases hfree : t.structRefusal? token (parentToken form parent) form with
  | some refusal =>
    rw [if_neg Bool.false_ne_true, List.append_nil]
    exact hitems
  | none =>
    have hform : form = .implementation → parentToken form parent = none := by
      rintro rfl
      rfl
    cases hcycle : (t.place token (parentToken form parent) form).isCyclic token.lexeme with
    | true =>
      simp only [hcycle, if_true, Bool.false_eq_true, if_false, List.append_nil]
      exact hitems.place h hfree hform
    | false =>
      simp only [hcycle, Bool.false_eq_true, if_false, if_true]
      exact hitems.placed h hfree

end Struct

/-- One call adds the parent that it names, if it is accepted. -/
theorem Recorded.call {items : List (Option Token)} (hitems : t.Recorded n items) (h : t.Sound)
    (call : Call) :
    (stateAfter call.run t).Recorded n
      (items ++ if succeeds call.run t then call.itemParents n else []) := by
  have hmember (hkeeps : t.KeepsItems (stateAfter call.run t)) (hnone : call.itemParents n = []) :
      (stateAfter call.run t).Recorded n
        (items ++ if succeeds call.run t then call.itemParents n else []) := by
    rw [hnone, ite_self, List.append_nil]
    exact hkeeps.recorded hitems
  cases call with
  | struct token parent form => exact hitems.declareStruct h token parent form
  | method token kind returnType =>
    exact hmember (KeepsItems.declareMethod h token kind returnType) rfl
  | param token type => exact hmember (KeepsItems.declareParam h token type) rfl
  | var token type isPrivate => exact hmember (KeepsItems.declareVar h token type isPrivate) rfl
  | close => exact hmember (.of_structs_eq rfl rfl) rfl

theorem Recorded.after {items : List (Option Token)} (hitems : t.Recorded n items) (h : t.Sound)
    (calls : List Call) : (t.after calls).Recorded n (items ++ structItems n t calls) := by
  induction calls generalizing t items with
  | nil =>
    unfold structItems
    rw [List.append_nil]
    exact hitems
  | cons call calls ih =>
    have hrest := ih (hitems.call h call) (h.reaches (call.moves t))
    rw [List.append_assoc] at hrest
    exact hrest

theorem recorded_declared (calls : List Call) (hn : Builtin.structs.contains n = false) :
    (declared calls).Recorded n (structItems n new calls) := by
  have hnew : new.Recorded n [] := by
    apply Recorded.absent
    intro hfirm
    have hregistered : Builtin.structs.contains n = true := hfirm.1
    rw [hn] at hregistered
    cases hregistered
  exact hnew.after sound_new calls

/-! ## Completed tables -/

/-- In a complete table no struct waits, and every declared struct has its struct item. -/
theorem Complete.structItems_eq {calls : List Call} (hcomplete : (declared calls).Complete)
    (hs : (declared calls).struct? n = some s) (huser : s.builtin = false) :
    ∃ parent, structItems n new calls = [parent] ∧
      s.parent = some (parent.elim Builtin.root (·.lexeme)) := by
  have h := sound_declared calls
  have hn : Builtin.structs.contains n = false := (h.registry.builtin_eq hs).symm.trans huser
  have hfirm : (declared calls).Firm n := by
    refine ⟨contains_iff_struct?.2 ⟨s, hs⟩, ?_⟩
    intro hloose
    have hparts := hcomplete.parts n s hs huser
    have hstructural : s.structural = false := by
      have hmap := hloose.2
      rw [hs] at hmap
      exact Option.some.inj hmap
    rw [Struct.missingPart?, hstructural] at hparts
    cases hparts
  have hrecorded := recorded_declared calls hn
  revert hrecorded
  generalize structItems n new calls = items
  intro hrecorded
  cases hrecorded with
  | absent hnot => exact absurd hfirm hnot
  | @accepted parent _ hsettled =>
    refine ⟨parent, rfl, ?_⟩
    have hstands : (declared calls).parent? n = some ((declared calls).home parent) :=
      hsettled.stands
    rw [parent?_of_struct? hs] at hstands
    rw [hstands]
    cases parent with
    | none => rfl
    | some p =>
      have hregistered : (declared calls).contains p.lexeme = true := by
        by_contra hnew
        have hwaits := (hsettled.waits p.lexeme).2 ⟨rfl, Bool.eq_false_iff.2 hnew⟩
        unfold orphans waitingFor at hwaits
        rw [hcomplete.parents] at hwaits
        cases hwaits
      show some (if (declared calls).contains p.lexeme then p.lexeme else Builtin.root) = _
      rw [if_pos hregistered]
      rfl

/-- The tree of the completed table `t` is the one that the accepted struct items describe. -/
structure Parentage (calls : List Call) (t : SymbolTable) : Prop where
  /-- A declared struct has one accepted struct item, which names its parent. -/
  parent : ∀ n s, t.struct? n = some s → s.builtin = false → ∃ parent,
    structItems n new calls = [parent] ∧ s.parent = some (parent.elim Builtin.root (·.lexeme))
  children : ∀ c p, (∃ sp, t.struct? p = some sp ∧ sp.children.contains c = true) ↔
    ∃ sc, t.struct? c = some sc ∧ sc.parent = some p
  /-- The way from a struct along the parents leads to the root and repeats no name. -/
  lineage : ∀ n, t.contains n = true →
    (t.lineage n).getLast? = some Builtin.root ∧ (t.lineage n).Nodup
  consolidated : ∀ n s, t.struct? n = some s → s.consolidated = true

/-- After any calls, failed or not, and a first completion that succeeds, the tree is the one that
the accepted struct items describe. -/
theorem parentage_of_consolidate {calls : List Call}
    (hrun : consolidate.run (declared calls) = .ok () t) : Parentage calls t := by
  have h := completion_of_consolidate hrun
  refine ⟨?_, ?_, ?_, ?_⟩
  · intro n s hs huser
    obtain ⟨own, hown, hkeeps⟩ := h.kept hs
    have hbuiltin : s.builtin = own.builtin := by rw [hkeeps]
    have hparent : s.parent = own.parent := by rw [hkeeps]
    rw [hparent]
    exact h.complete.structItems_eq hown (hbuiltin ▸ huser)
  · intro c p
    constructor
    · rintro ⟨sp, hsp, hchild⟩
      have hextends : t.Extends c p := (h.faithful p sp c hsp).1 hchild
      obtain ⟨sc, hsc⟩ := contains_iff_struct?.1 hextends.contains
      exact ⟨sc, hsc, (parent?_of_struct? hsc).symm.trans hextends⟩
    · rintro ⟨sc, hsc, hparent⟩
      have hextends : t.Extends c p := (parent?_of_struct? hsc).trans hparent
      have hregistered : t.contains p = true :=
        h.contains_of_below (contains_iff_struct?.2 ⟨sc, hsc⟩) (.single hextends)
      obtain ⟨sp, hsp⟩ := contains_iff_struct?.1 hregistered
      exact ⟨sp, hsp, (h.faithful p sp c hsp).2 hextends⟩
  · intro n hn
    have hrooted := h.rooted hn
    exact ⟨getLast?_lineage h.parent?_root hrooted, nodup_lineage h.parent?_root hrooted⟩
  · intro n s hs
    obtain ⟨own, _, hkeeps⟩ := h.kept hs
    rw [hkeeps]

/-- Calls that declare `A : B` and `B : A`.  The second one is refused, and `B` is then declared
without a parent. -/
def cyclicCalls : List Call :=
  let struct (name : String) := Token.builtin .structId name
  let member (name : String) := Token.builtin .objectId name
  [.struct (struct "A") (some (struct "B")) .structural,
   .struct (struct "B") (some (struct "A")) .structural,
   .struct (struct "B") none .structural,
   .struct (struct "B") none .implementation, .method (member ".") .constructor none,
   .struct (struct "A") none .implementation, .method (member ".") .constructor none]

theorem parentage_of_cyclicCalls :
    structItems "A" new cyclicCalls = [some (Token.builtin .structId "B")] ∧
      structItems "B" new cyclicCalls = [none] ∧
      ∃ t, consolidate.run (declared cyclicCalls) = .ok () t ∧ Parentage cyclicCalls t := by
  have hrun := run_of_succeeds (x := consolidate) (s := declared cyclicCalls) (by decide +kernel)
  exact ⟨by decide +kernel, by decide +kernel, _, hrun, parentage_of_consolidate hrun⟩

end SymbolTable

end StructLang
