import StructLang.Proofs.Operations
import StructLang.Proofs.Remerge

/-!
# Completing a table after a failure

A completion that fails before the walk over the tree leaves the table as it is, and fails again in
the same way.  One that fails on the walk leaves the structs before the failure merged, and one
struct merged in part (`StoppedAt`).  Tried again, it passes over the merged structs and comes to
that one, which now holds members of its parent.

`run_consolidate_again`: the second completion changes nothing, and its error is the first one of
`rejectedCopies`, or if there is none the error of the first completion.  So the two errors are
equal exactly if no static method and no attribute had been copied into the struct that failed.
Otherwise the second one is about a member that the struct does not declare.

* A merged struct is never written again (`moves_struct?_mergeChild`).
* `mergeChild_again`, `mergeChildren_again` and `mergeFrom_again` follow the walk down to the struct
  where it stops.
-/

namespace StructLang

/-- A list in which one element has an image that is not empty. -/
theorem flatMap_eq_of_unique {α β : Type} {f : α → List β} {l : List α} {a : α} (hnodup : l.Nodup)
    (ha : a ∈ l) (hother : ∀ b ∈ l, b ≠ a → f b = []) : l.flatMap f = f a := by
  obtain ⟨before, after, rfl⟩ := List.append_of_mem ha
  obtain ⟨_, hafter, hdisjoint⟩ := List.nodup_append.1 hnodup
  have hbeforeNil : before.flatMap f = [] := List.flatMap_eq_nil_iff.2 fun b hb =>
    hother b (List.mem_append_left _ hb) (hdisjoint b hb a List.mem_cons_self)
  have hafterNil : after.flatMap f = [] := List.flatMap_eq_nil_iff.2 fun b hb =>
    hother b (List.mem_append_right _ (List.mem_cons_of_mem _ hb)) fun heq =>
      (List.nodup_cons.1 hafter).1 (heq ▸ hb)
  rw [List.flatMap_append, List.flatMap_cons, hbeforeNil, hafterNil, List.nil_append,
    List.append_nil]

namespace Struct

/-- A merge that succeeds marks the struct. -/
theorem consolidated_of_inheritFrom {p s s' : Struct} (h : (inheritFrom p).run s = .ok () s') :
    s'.consolidated = true := by
  obtain ⟨_, s₁, _, h⟩ := run_bind_eq_ok.1 h
  obtain ⟨_, s₂, _, h⟩ := run_bind_eq_ok.1 h
  cases h
  rfl

/-- A struct with its own members only holds no copies. -/
theorem OwnMembers.copies_eq_nil {s : Struct} {ms : List Method} {as : List Attr}
    (h : s.OwnMembers ms as) : s.copiedMethods = [] ∧ s.copiedAttributes = [] := by
  constructor
  · refine sortBySlot_eq_of_perm (.of_eq (List.filter_eq_nil_iff.2 fun m hm => ?_)) .nil
    have howner := (h.methods m (h.laid.methods.perm.mem_iff.1 hm)).1
    simp [howner]
  · refine sortBySlot_eq_of_perm (.of_eq (List.filter_eq_nil_iff.2 fun a ha => ?_)) .nil
    have hmark := (h.attributes a (h.laid.attributes.perm.mem_iff.1 ha)).2
    simp [hmark]

/-- A copied method that is not static passes; every copied attribute is rejected. -/
theorem rejectedCopies_eq_nil_iff {s : Struct} : s.rejectedCopies = [] ↔
    (∀ m ∈ s.copiedMethods, m.isStatic = false) ∧ s.copiedAttributes = [] := by
  rw [rejectedCopies, List.append_eq_nil_iff, List.map_eq_nil_iff, List.filterMap_eq_nil_iff]
  simp [Method.copyError?]

end Struct

namespace SymbolTable

variable {t u u' : SymbolTable} {n c p : String} {s s' sp : Struct} {e : SemanticError}
  {names : List String}

/-- What is wrong with the inherited members of the structs that have not been merged. -/
def rejectedCopies (t : SymbolTable) : List SemanticError :=
  (t.userStructs.filter (!·.consolidated)).flatMap Struct.rejectedCopies

/-! ## Merged structs -/

theorem Registry.consolidated_root (h : t.Registry) (hs : t.struct? Builtin.root = some s) :
    s.consolidated = true := by
  obtain ⟨children, hroot⟩ := h.root
  cases hroot.symm.trans hs
  rfl

theorem Merged.consolidated (h : t.Merged n s) (hr : t.Registry) : s.consolidated = true := by
  cases h with
  | user _ _ _ _ hmerge => exact Struct.consolidated_of_inheritFrom hmerge
  | builtin hn hs =>
    by_cases hroot : n = Builtin.root
    · subst hroot
      exact hr.consolidated_root hs
    · obtain ⟨b, hb⟩ := NameMap.contains_iff.1 hn
      cases (hr.builtin n b hroot hb).symm.trans hs
      exact (Builtin.underRoot_of_get? hb hroot).2.2.1

theorem Merged.name_eq (h : t.Merged n s) (hr : t.Registry) : s.name = n := by
  cases h with
  | builtin _ hs => exact hr.name_eq hs
  | @user _ _ s₀ sp _ _ hs _ _ hmerge =>
    have hframe := Struct.frame_inheritFrom sp s₀
    rw [stateAfter_of_ok hmerge] at hframe
    have hname : s.name = s₀.name := (congrArg Struct.name hframe :)
    exact hname.trans (hr.name_eq hs)

/-- A merged struct is not written again. -/
theorem moves_struct?_mergeChild (hs : s.consolidated = true) (parent : Struct) (child : String) :
    Moves (fun u u' => u.struct? n = some s → u'.struct? n = some s) (mergeChild parent child) := by
  intro u
  apply Relation.ReflTransGen.single
  intro hu
  rcases stateAfter_mergeChild u parent child with heq | ⟨r, r', hr, hopen, _, heq⟩
  · rwa [heq]
  · have hne : n ≠ child := by
      rintro rfl
      cases hu.symm.trans hr
      rw [hs] at hopen
      cases hopen
    rw [heq]
    exact (NameMap.get?_insert _ _ _ _).trans ((if_neg hne).trans hu)

/-- A struct that has been merged is passed over. -/
theorem run_mergeChild_of_merged (hs : u.struct? c = some s) (hmerged : s.consolidated = true) :
    (mergeChild sp c).run u = .ok () u := by
  rw [run_mergeChild hs, if_pos hmerged]

/-- A struct has been merged, or it is as it was declared and holds no copies. -/
theorem MergedOn.struct?_cases (h : t.MergedOn names u) (hsound : t.Sound)
    (hs : u.struct? n = some s) :
    t.Merged n s ∨ t.struct? n = some s ∧ s.copiedMethods = [] ∧ s.copiedAttributes = [] := by
  by_cases hn : n ∈ names
  · exact .inl (h.merged hn hs)
  · have hs := (h.other n (.inl hn)).symm.trans hs
    cases hbuiltin : Builtin.structs.contains n with
    | true => exact .inl (.builtin hbuiltin hs)
    | false =>
      obtain ⟨ms, as, hown⟩ := hsound.contents.own n s hbuiltin hs
      exact .inr ⟨hs, hown.copies_eq_nil⟩

theorem MergedOn.exists_consolidated (h : t.MergedOn names u) (hr : t.Registry) (hn : n ∈ names)
    (hregistered : t.contains n = true) : ∃ s, u.struct? n = some s ∧ s.consolidated = true := by
  cases hbuiltin : Builtin.structs.contains n with
  | true =>
    obtain ⟨s, hs⟩ := contains_iff_struct?.1 hregistered
    exact ⟨s, (h.other n (.inr hbuiltin)).trans hs, (Merged.builtin hbuiltin hs).consolidated hr⟩
  | false =>
    obtain ⟨s, hs, hmerged⟩ := h.done n hn hbuiltin
    exact ⟨s, hs, hmerged.consolidated hr⟩

/-! ## The struct where the walk stops -/

/-- A walk over `t` has stopped with the error `e` and left the table `u`: at the struct `c`, of
which `s` is what the merge with its parent has left. -/
structure StoppedAt (t : SymbolTable) (e : SemanticError) (u : SymbolTable) (c : String)
    (s : Struct) : Prop where
  user : Builtin.structs.contains c = false
  struct? : u.struct? c = some s
  unmerged : s.consolidated = false
  /-- The merge of `c` with its parent has failed. -/
  merge : ∃ p sp s₀, t.Extends c p ∧ t.Merged p sp ∧ t.struct? c = some s₀ ∧
    (Struct.inheritFrom sp).run s₀ = .error e s
  /-- The error is none of those that a merge has about copies in `s`. -/
  clash : e ∉ s.rejectedCopies
  /-- No other struct has been merged in part. -/
  others : ∀ n r, n ≠ c → u.struct? n = some r →
    t.Merged n r ∨ t.struct? n = some r ∧ r.copiedMethods = [] ∧ r.copiedAttributes = []

theorem mem_unmerged_iff : s ∈ t.userStructs.filter (!·.consolidated) ↔
    (∃ n, t.struct? n = some s) ∧ s.builtin = false ∧ s.consolidated = false := by
  rw [List.mem_filter, userStructs, List.mem_filter, NameMap.mem_values_iff, Bool.not_eq_true',
    Bool.not_eq_true', and_assoc]
  rfl

/-- In a struct that is not merged and not merged in part, no copies are in the way. -/
theorem rejectedCopies_of_cases (hr : t.Registry) (hopen : s.consolidated = false)
    (h : t.Merged n s ∨ t.struct? n = some s ∧ s.copiedMethods = [] ∧ s.copiedAttributes = []) :
    s.rejectedCopies = [] := by
  rcases h with hmerged | ⟨_, hmethods, hattributes⟩
  · rw [hmerged.consolidated hr] at hopen
    cases hopen
  · rw [Struct.rejectedCopies, hmethods, hattributes]
    rfl

theorem MergedOn.rejectedCopies_eq_nil (h : t.MergedOn names u) (hsound : t.Sound) :
    u.rejectedCopies = [] := by
  rw [rejectedCopies, List.flatMap_eq_nil_iff]
  intro s hs
  obtain ⟨⟨n, hs⟩, _, hopen⟩ := mem_unmerged_iff.1 hs
  exact rejectedCopies_of_cases hsound.registry hopen (h.struct?_cases hsound hs)

namespace StoppedAt

/-- A merge keeps the frame of the struct also when it fails. -/
theorem frame (h : t.StoppedAt e u c s) (hr : t.Registry) : s.name = c ∧ s.builtin = false := by
  obtain ⟨p, sp, s₀, _, _, hs₀, hmerge⟩ := h.merge
  have hframe := Struct.frame_inheritFrom sp s₀
  rw [stateAfter_of_error hmerge] at hframe
  have hname : s.name = s₀.name := (congrArg Struct.name hframe :)
  have hbuiltin : s.builtin = s₀.builtin := (congrArg Struct.builtin hframe :)
  obtain ⟨hname₀, huser, _⟩ := hr.user c s₀ h.user hs₀
  exact ⟨hname.trans hname₀, hbuiltin.trans huser⟩

theorem keyed (h : t.StoppedAt e u c s) (hr : t.Registry) : u.Keyed := by
  intro n r hs
  by_cases hn : n = c
  · subst hn
    cases h.struct?.symm.trans hs
    exact (h.frame hr).1
  · rcases h.others n r hn hs with hmerged | ⟨hs, _⟩
    · exact hmerged.name_eq hr
    · exact hr.name_eq hs

/-- The copies in the struct where the walk stops are all that are in the way. -/
theorem rejectedCopies_eq (h : t.StoppedAt e u c s) (hr : t.Registry) :
    u.rejectedCopies = s.rejectedCopies := by
  have hmem : s ∈ u.userStructs.filter (!·.consolidated) :=
    mem_unmerged_iff.2 ⟨⟨c, h.struct?⟩, (h.frame hr).2, h.unmerged⟩
  have hnodup : (u.userStructs.filter (!·.consolidated)).Nodup :=
    ((NameMap.nodup_values (h.keyed hr)).filter _).filter _
  refine flatMap_eq_of_unique hnodup hmem fun r hr' hne => ?_
  obtain ⟨⟨n, hs⟩, _, hopen⟩ := mem_unmerged_iff.1 hr'
  have hn : n ≠ c := by
    rintro rfl
    exact hne (Option.some.inj (hs.symm.trans h.struct?))
  exact rejectedCopies_of_cases hr hopen (h.others n r hn hs)

end StoppedAt

/-- A struct that a program declares, and its parent. -/
theorem joins_of_extends (hsound : t.Sound) (hrooted : ∀ n, t.contains n = true → t.Rooted n)
    (hc : Builtin.structs.contains c = false) (hs : t.struct? c = some s)
    (hextends : t.Extends c p) (hparent : t.Merged p sp) :
    ∃ ms as, Struct.Joins sp s sp.methodsBySlot ms sp.attributesBySlot as := by
  obtain ⟨ms, as, hown⟩ := hsound.contents.own c s hc hs
  have hname := hsound.registry.name_eq hs
  have hopen := (hsound.hierarchy.open_of_extends hsound.registry hextends).imp id And.left
  obtain ⟨sp₀, hsp₀⟩ := hparent.exists_struct?
  have hfrom := hparent.mergedFrom hsound hrooted hopen hsp₀
  refine ⟨ms, as, hfrom.laid, hown.laid, fun m hm => (hown.methods m hm).1,
    fun a ha => (hown.attributes a ha).2, fun m hm => ?_⟩
  obtain ⟨a, _, _, hbelow, howner, _⟩ := hparent.method_origin hsound hrooted hopen m hm
  rw [howner, hname, ne_eq, Option.some.injEq]
  exact not_owner_of_extends hsound (hrooted c hextends.contains) hextends hbelow

/-- The child where the walk stops is in the way again, and nothing changes. -/
theorem MergedOn.mergeChild_again (h : t.MergedOn names u) (hsound : t.Sound)
    (hrooted : ∀ n, t.contains n = true → t.Rooted n) (hparent : t.Merged p sp)
    (hextends : t.Extends c p) (hc : c ∉ names)
    (hrun : (SymbolTable.mergeChild sp c).run u = .error e u') :
    (SymbolTable.mergeChild sp c).run u' = .error (u'.rejectedCopies.head?.getD e) u' ∧
      ∃ s, t.StoppedAt e u' c s := by
  obtain ⟨s, hs⟩ := contains_iff_struct?.1 hextends.contains
  have hsu : u.struct? c = some s := (h.other c (.inl hc)).trans hs
  rw [run_mergeChild hsu] at hrun
  cases hbuiltin : Builtin.structs.contains c with
  | true =>
    rw [hsound.registry.consolidated_of_builtin hextends hbuiltin hs] at hrun
    cases hrun
  | false =>
    obtain ⟨_, _, hopen, _⟩ := hsound.registry.user c s hbuiltin hs
    rw [hopen, if_neg Bool.false_ne_true] at hrun
    cases hmerge : (Struct.inheritFrom sp).run s with
    | ok _ s' =>
      rw [hmerge] at hrun
      cases hrun
    | error e' s' =>
      rw [hmerge] at hrun
      cases hrun
      obtain ⟨ms, as, hjoins⟩ := joins_of_extends hsound hrooted hbuiltin hs hextends hparent
      obtain ⟨hagain, hclash, hopen'⟩ := hjoins.run_inheritFrom_again hmerge
      rw [hopen] at hopen'
      have hstruct (n : String) : struct? { u with structs := u.structs.insert c s' } n =
          if n = c then some s' else u.struct? n := NameMap.get?_insert _ _ _ _
      have hs' := (hstruct c).trans (if_pos rfl)
      have hstopped : t.StoppedAt e { u with structs := u.structs.insert c s' } c s' := by
        refine ⟨hbuiltin, hs', hopen', ⟨p, sp, s, hextends, hparent, hs, hmerge⟩, hclash,
          fun n r hn hr => h.struct?_cases hsound ?_⟩
        rwa [hstruct, if_neg hn] at hr
      refine ⟨?_, s', hstopped⟩
      rw [hstopped.rejectedCopies_eq hsound.registry, run_mergeChild hs', hopen',
        if_neg Bool.false_ne_true, hagain]
      simp

/-- Children that have been merged are passed over. -/
theorem MergedOn.run_mergeChildren (h : t.MergedOn names u) (hr : t.Registry)
    (hkeeps : ∀ n s, s.consolidated = true → u.struct? n = some s → u'.struct? n = some s)
    {cs : List String} (hcs : ∀ c ∈ cs, c ∈ names) (hregistered : ∀ c ∈ cs, t.contains c = true) :
    (cs.forM (SymbolTable.mergeChild sp)).run u' = .ok () u' := by
  induction cs with
  | nil => rfl
  | cons c cs ih =>
    rw [List.forall_mem_cons] at hcs hregistered
    obtain ⟨s, hs, hmerged⟩ := h.exists_consolidated hr hcs.1 hregistered.1
    have hpass : (SymbolTable.mergeChild sp c).run u' = .ok () u' :=
      run_mergeChild_of_merged (hkeeps c s hmerged hs) hmerged
    exact run_forM_cons_eq_ok.2 ⟨u', hpass, ih hcs.2 hregistered.2⟩

/-- The children before the one where the walk stops are passed over. -/
theorem MergedOn.mergeChildren_again (h : t.MergedOn names u) (hsound : t.Sound)
    (hrooted : ∀ n, t.contains n = true → t.Rooted n) (hparent : t.Merged p sp)
    {cs : List String} (hnodup : cs.Nodup) (hextends : ∀ c ∈ cs, t.Extends c p)
    (hnew : ∀ c ∈ cs, c ∉ names)
    (hrun : (cs.forM (SymbolTable.mergeChild sp)).run u = .error e u') :
    (cs.forM (SymbolTable.mergeChild sp)).run u' = .error (u'.rejectedCopies.head?.getD e) u' ∧
      ∃ c s, t.StoppedAt e u' c s := by
  obtain ⟨before, c, after, u₁, rfl, hbefore, hc⟩ := run_forM_eq_error hrun
  rw [List.nodup_append, List.nodup_cons] at hnodup
  have hmerged := (h.mergeChildren hsound.registry hparent hnodup.1
    (fun d hd => hextends d (List.mem_append_left _ hd))
    fun d hd => hnew d (List.mem_append_left _ hd)).1 u₁ hbefore
  have hmem : c ∈ before ++ c :: after := List.mem_append_right _ List.mem_cons_self
  have hout : c ∉ before ++ names := by
    rw [List.mem_append, not_or]
    exact ⟨fun hin => hnodup.2.2 c hin c List.mem_cons_self rfl, hnew c hmem⟩
  obtain ⟨hagain, s, hstopped⟩ :=
    hmerged.mergeChild_again hsound hrooted hparent (hextends c hmem) hout hc
  have hkeeps (n : String) (s : Struct) (hs : s.consolidated = true)
      (hu : u₁.struct? n = some s) : u'.struct? n = some s :=
    stateAfter_of_error hc ▸ (moves_struct?_mergeChild hs sp c).keeps hu
  have hpass : (before.forM (SymbolTable.mergeChild sp)).run u' = .ok () u' :=
    hmerged.run_mergeChildren hsound.registry hkeeps (fun d hd => List.mem_append_left _ hd)
      fun d hd => (hextends d (List.mem_append_left _ hd)).contains
  refine ⟨?_, c, s, hstopped⟩
  rw [List.forM_eq_forM, List.forM_append]
  exact run_bind_eq_error.2 (.inr ⟨(), u', hpass, run_bind_eq_error.2 (.inl hagain)⟩)

/-! ## The walk -/

/-- The walk stops where it has stopped before. -/
theorem mergeFrom_again (hsound : t.Sound) (hrooted : ∀ n, t.contains n = true → t.Rooted n)
    {steps : Nat} {visited stack : List String} (hwalk : t.Walk visited stack u)
    (hrun : (mergeFrom steps stack).run u = .error e u') :
    (mergeFrom steps stack).run u' = .error (u'.rejectedCopies.head?.getD e) u' ∧
      ∃ c s, t.StoppedAt e u' c s := by
  induction steps generalizing visited stack u with
  | zero => cases hrun
  | succ steps ih =>
    cases stack with
    | nil => cases hrun
    | cons n stack =>
      obtain ⟨s, hs, hmerged⟩ := hwalk.top
      have hchildren : ∀ c, c ∈ s.children.names ↔ t.Extends c n := fun c =>
        NameMap.mem_names_iff.trans (hmerged.children_iff hsound hrooted)
      have hextends : ∀ c ∈ s.children.names.reverse, t.Extends c n := fun c hc =>
        (hchildren c).1 (List.mem_reverse.1 hc)
      have hnew : ∀ c ∈ s.children.names.reverse, c ∉ visited ++ n :: stack := fun c hc =>
        hwalk.not_seen (hextends c hc)
      have hnodup := List.nodup_reverse.2 s.children.nodup_names
      -- the struct on top is merged, so the second walk finds it as the first one did
      have hs' : u'.struct? n = some s :=
        stateAfter_of_error hrun ▸ (moves_mergeFrom
          (moves_struct?_mergeChild (hmerged.consolidated hsound.registry)) _ _).keeps hs
      rw [run_mergeFrom_succ hs] at hrun
      rw [run_mergeFrom_succ hs']
      rcases run_bind_eq_error.1 hrun with hstop | ⟨_, u₁, hpass, hstop⟩
      · obtain ⟨hagain, hstopped⟩ := hwalk.merged.mergeChildren_again hsound hrooted hmerged hnodup
          hextends hnew hstop
        exact ⟨run_bind_eq_error.2 (.inl hagain), hstopped⟩
      · have hon := (hwalk.merged.mergeChildren hsound.registry hmerged hnodup hextends hnew).1 u₁
          hpass
        have hnext := hwalk.step s.children.nodup_names hchildren (hon.congr fun m => by simp)
        obtain ⟨hagain, hstopped⟩ := ih hnext hstop
        have hkeeps (n : String) (s : Struct) (hs : s.consolidated = true)
            (hu : u₁.struct? n = some s) : u'.struct? n = some s :=
          stateAfter_of_error hstop ▸ (moves_mergeFrom (moves_struct?_mergeChild hs) _ _).keeps hu
        have hpass' : (s.children.names.reverse.forM (mergeChild s)).run u' = .ok () u' :=
          hon.run_mergeChildren hsound.registry hkeeps (fun c hc => List.mem_append_left _ hc)
            fun c hc => (hextends c hc).contains
        exact ⟨run_bind_eq_error.2 (.inr ⟨(), u', hpass', hagain⟩), hstopped⟩

/-! ## The second completion -/

/-- The table `u` is `t` apart from the members of the structs. -/
structure SameFrames (t u : SymbolTable) : Prop where
  rest : u = { t with structs := u.structs }
  frames : ∀ n, (u.struct? n).map Struct.frame = (t.struct? n).map Struct.frame

namespace SameFrames

theorem contains_eq (h : t.SameFrames u) (n : String) : u.contains n = t.contains n := by
  have hframe := congrArg Option.isSome (h.frames n)
  rwa [Option.isSome_map, Option.isSome_map] at hframe

/-- Two tables with the same names have the same number of structs. -/
theorem size_eq (h : t.SameFrames u) : u.structs.size = t.structs.size := by
  refine Nat.le_antisymm ?_ ?_
  · rw [← NameMap.length_names u.structs]
    refine NameMap.length_le_size u.structs.nodup_names fun n hn => ?_
    exact (h.contains_eq n).symm.trans (NameMap.mem_names_iff.1 hn)
  · rw [← NameMap.length_names t.structs]
    refine NameMap.length_le_size t.structs.nodup_names fun n hn => ?_
    exact (h.contains_eq n).trans (NameMap.mem_names_iff.1 hn)

theorem complete (h : t.SameFrames u) (hcomplete : t.Complete) : u.Complete := by
  refine ⟨?_, ?_, fun n s hs huser => ?_⟩
  · rw [h.rest]
    exact hcomplete.parents
  · rw [h.rest]
    exact hcomplete.types
  · have hframe := h.frames n
    rw [hs, Option.map_some] at hframe
    obtain ⟨s₀, hs₀, hframe⟩ := Option.map_eq_some_iff.1 hframe.symm
    have hbuiltin : s₀.builtin = s.builtin := (congrArg Struct.builtin hframe :)
    have hparts : s₀.missingPart? = s.missingPart? := (congrArg Struct.missingPart? hframe :)
    exact hparts.symm.trans (hcomplete.parts n s₀ hs₀ (hbuiltin.trans huser))

end SameFrames

theorem moves_sameFrames_mergeChild (parent : Struct) (child : String) :
    Moves (fun u u' => SameFrames t u → SameFrames t u') (mergeChild parent child) := by
  intro u
  apply Relation.ReflTransGen.single
  intro h
  rcases stateAfter_mergeChild u parent child with heq | ⟨s, s', hs, _, hframe, heq⟩
  · rwa [heq]
  · rw [heq]
    refine ⟨by rw [h.rest], fun n => ?_⟩
    rw [← h.frames n]
    show ((u.structs.insert child s').get? n).map _ = _
    rw [NameMap.get?_insert]
    split
    · next hn => rw [hn, hs, Option.map_some, Option.map_some, hframe]
    · rfl

/-- A completion that is refused before the walk leaves the table as it is. -/
theorem run_consolidate_of_refusal (hfirst : t.consolidated = false)
    (hrefusal : t.undeclared?.or t.incomplete? = some e) : consolidate.run t = .error e t := by
  rw [run_consolidate_eq, hfirst, hrefusal]
  rfl

/-- A completion that stops on the walk stops at the same struct when it is tried again, and it
fails with the first error of `rejectedCopies`, or if there is none with the error that it had. -/
theorem Sound.consolidate_again (h : t.Sound) (hfirst : t.consolidated = false)
    (hcomplete : t.Complete) (hrun : consolidate.run t = .error e u) :
    consolidate.run u = .error (u.rejectedCopies.head?.getD e) u ∧
      ∃ c s, t.StoppedAt e u c s := by
  have hrooted : ∀ n, t.contains n = true → t.Rooted n := fun n hn => hcomplete.rooted h hn
  rw [run_consolidate hfirst hcomplete] at hrun
  have hstop : (mergeFrom t.structs.size [Builtin.root]).run t = .error e u :=
    (run_bind_eq_error.1 hrun).resolve_right (by rintro ⟨_, _, _, ⟨⟩⟩)
  obtain ⟨hagain, hstopped⟩ := mergeFrom_again h hrooted (Walk.start h.registry) hstop
  have hsame : t.SameFrames u := stateAfter_of_error hstop ▸
    (moves_mergeFrom moves_sameFrames_mergeChild _ _).keeps ⟨rfl, fun _ => rfl⟩
  have hopen : u.consolidated = false := by
    rw [hsame.rest]
    exact hfirst
  rw [run_consolidate hopen (hsame.complete hcomplete), hsame.size_eq]
  exact ⟨run_bind_eq_error.2 (.inl hagain), hstopped⟩

theorem head?_getD_eq_iff {l : List SemanticError} (h : e ∉ l) : l.head?.getD e = e ↔ l = [] := by
  cases l with
  | nil => simp
  | cons e' l =>
    rw [List.mem_cons, not_or] at h
    simpa using Ne.symm h.1

/-- After a completion of declarations has failed, the next one leaves the table as it is.  It has
the same error exactly if no member that the first one copied is in its way; otherwise its error is
about the first such member.  A refusal before the walk has copied nothing and is repeated; after a
walk, all copies that are in the way are static methods and attributes of the struct where the walk
has stopped. -/
theorem run_consolidate_again (calls : List Call)
    (h : consolidate.run (declared calls) = .error e t) :
    consolidate.run t = .error (t.rejectedCopies.head?.getD e) t ∧
      (t.rejectedCopies.head?.getD e = e ↔ t.rejectedCopies = []) ∧
      ((declared calls).undeclared?.or (declared calls).incomplete? = some e ∧
          t = declared calls ∧ consolidate.run t = .error e t ∨
        (declared calls).Complete ∧ ∃ c s, (declared calls).StoppedAt e t c s ∧
          t.rejectedCopies = s.rejectedCopies ∧
          (s.rejectedCopies = [] ↔
            (∀ m ∈ s.copiedMethods, m.isStatic = false) ∧ s.copiedAttributes = [])) := by
  have hsound := sound_declared calls
  have hfirst := consolidated_declared calls
  cases hrefusal : (declared calls).undeclared?.or (declared calls).incomplete? with
  | some e' =>
    have hrefused := run_consolidate_of_refusal hfirst hrefusal
    cases hrefused.symm.trans h
    rw [(Walk.start hsound.registry).merged.rejectedCopies_eq_nil hsound]
    exact ⟨hrefused, by simp, .inl ⟨rfl, rfl, hrefused⟩⟩
  | none =>
    have hcomplete := complete_iff_refusal.2 hrefusal
    obtain ⟨hagain, c, s, hstopped⟩ := hsound.consolidate_again hfirst hcomplete h
    have hcopies := hstopped.rejectedCopies_eq hsound.registry
    exact ⟨hagain, head?_getD_eq_iff (hcopies ▸ hstopped.clash),
      .inr ⟨hcomplete, c, s, hstopped, hcopies, Struct.rejectedCopies_eq_nil_iff⟩⟩

/-- A struct with an attribute of the name of its parent's, which has a static method as well. -/
def copyingCalls : List Call :=
  let struct (s : String) (line : UInt32) : Token := ⟨.structId, s, line, 8⟩
  let name (s : String) (line : UInt32) : Token := ⟨.objectId, s, line, 5⟩
  let int : Token := ⟨.intType, "Int", 1, 1⟩
  let constructor := Call.method ⟨.dot, ".", 3, 5⟩ .constructor none
  [.struct (struct "A" 1) none .structural, .var (name "x" 4) int false,
    .struct (struct "A" 2) none .implementation, constructor, .method (name "s" 5) .static none,
    .struct (struct "B" 1) (some (struct "A" 1)) .structural, .var (name "x" 6) int false,
    .struct (struct "B" 2) none .implementation, constructor]

theorem run_consolidate_again_copyingCalls :
    ∃ e t, consolidate.run (declared copyingCalls) = .error e t ∧
      consolidate.run t = .error (t.rejectedCopies.head?.getD e) t ∧
      (t.rejectedCopies.head?.getD e = e ↔ t.rejectedCopies = []) ∧
      ∃ c s, (declared copyingCalls).StoppedAt e t c s ∧ t.rejectedCopies = s.rejectedCopies := by
  have herror : errorOf? consolidate (declared copyingCalls) =
      some ⟨.repeated .inheritedAttribute "x", ⟨6, 5⟩⟩ := by decide +kernel
  have hrefusal : (declared copyingCalls).undeclared?.or (declared copyingCalls).incomplete? =
      none := by decide +kernel
  have hrun := run_of_errorOf? herror
  obtain ⟨hagain, hsame, ⟨hrefused, _⟩ | ⟨_, c, s, hstopped, hcopies, _⟩⟩ :=
    run_consolidate_again copyingCalls hrun
  · rw [hrefusal] at hrefused
    cases hrefused
  · exact ⟨_, _, hrun, hagain, hsame, c, s, hstopped, hcopies⟩

/-- The second completion takes the static method that the first one copied for an override. -/
theorem error_changes_of_copyingCalls :
    errorOf? consolidate (declared copyingCalls) =
        some ⟨.repeated .inheritedAttribute "x", ⟨6, 5⟩⟩ ∧
      errorOf? consolidate (stateAfter consolidate (declared copyingCalls)) =
        some ⟨.invalidOverride "s" (.staticMethod "s" "A"), ⟨5, 5⟩⟩ := by
  constructor
  · decide +kernel
  · decide +kernel

end SymbolTable

end StructLang
