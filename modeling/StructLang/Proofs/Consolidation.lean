import StructLang.Proofs.Sound
import StructLang.SymbolTable.Consolidate

/-!
# Consolidation

The members of the structs are merged on a walk over the tree, with a stack and a bound on the
steps.  `Merged` says without the walk what becomes of a struct: a built-in struct stays as it is,
and another one takes over the members of its parent, with what has become of that.

* `Merged.mergedFrom`: in a tree, a merged struct has its members numbered from zero, and the
  attributes that are marked as inherited are those of other owners.
* `Walk` is the invariant of the walk: the structs on the stack and those already visited are
  merged, and no other.  A walk that started at the root ends with all structs visited.
* `consolidate_eq_ok`: a table is completed exactly when nothing is undeclared or incomplete and
  every struct can be merged, and then every struct is merged.
-/

namespace StructLang.SymbolTable

variable {t t' : SymbolTable} {c n p : String} {s s' sp : Struct}

/-! ## Merged structs -/

/-- What becomes of a struct of `t`. -/
inductive Merged (t : SymbolTable) : String → Struct → Prop where
  | builtin {n : String} {s : Struct} (hn : Builtin.structs.contains n = true)
      (hs : t.struct? n = some s) : Merged t n s
  | user {n p : String} {s sp s' : Struct} (hn : Builtin.structs.contains n = false)
      (hs : t.struct? n = some s) (hp : s.parent = some p) (hparent : Merged t p sp)
      (hmerge : (Struct.inheritFrom sp).run s = .ok () s') : Merged t n s'

namespace Merged

theorem exists_struct? (h : t.Merged n s') : ∃ s, t.struct? n = some s := by
  cases h with
  | builtin _ hs => exact ⟨_, hs⟩
  | user _ hs _ _ _ => exact ⟨_, hs⟩

theorem of_builtin (hn : Builtin.structs.contains n = true) :
    t.Merged n s ↔ t.struct? n = some s := by
  constructor
  · intro h
    cases h with
    | builtin _ hs => exact hs
    | user hn' _ _ _ _ =>
      rw [hn] at hn'
      cases hn'
  · exact .builtin hn

/-- There is at most one way in which a struct can be merged. -/
theorem unique (h : t.Merged n s) (h' : t.Merged n s') : s = s' := by
  induction h generalizing s' with
  | builtin hn hs =>
    rw [of_builtin hn, hs] at h'
    exact Option.some.inj h'
  | user hn hs hp _ hmerge ih =>
    cases h' with
    | builtin hn' _ =>
      rw [hn] at hn'
      cases hn'
    | user _ hs' hp' hparent' hmerge' =>
      rw [hs] at hs'
      cases hs'
      rw [hp] at hp'
      cases hp'
      cases ih hparent'
      rw [hmerge] at hmerge'
      cases hmerge'
      rfl

end Merged

/-- What a merged struct keeps of the struct `s` that it was, and how its members are numbered. -/
structure MergedFrom (t : SymbolTable) (n : String) (s s' : Struct) : Prop where
  keeps : s' = { s with
    methods := s'.methods, nextMethodSlot := s'.nextMethodSlot, attributes := s'.attributes
    nextAttributeSlot := s'.nextAttributeSlot, consolidated := true }
  laid : s'.Laid s'.methodsBySlot s'.attributesBySlot
  owners : ∀ a ∈ s'.attributesBySlot, t.Below n a.owner
  marks : ∀ a ∈ s'.attributesBySlot, a.inherited = true ↔ a.owner ≠ n

/-- The root has no members. -/
theorem Registry.laid_root (h : t.Registry) (hs : t.struct? Builtin.root = some s) :
    s.Laid [] [] := by
  obtain ⟨children, hroot⟩ := h.root
  rw [hroot] at hs
  cases hs
  exact ⟨.empty, .empty, rfl, rfl⟩

theorem mergedFrom_root (h : t.Sound) (hs : t.struct? Builtin.root = some s) :
    t.MergedFrom Builtin.root s s := by
  have hlaid := h.registry.laid_root hs
  obtain ⟨children, hroot⟩ := h.registry.root
  rw [hroot] at hs
  cases hs
  refine ⟨rfl, ?_, ?_, ?_⟩
  · rw [hlaid.methodsBySlot_eq, hlaid.attributesBySlot_eq]
    exact hlaid
  all_goals
    rw [hlaid.attributesBySlot_eq]
    exact List.forall_mem_nil _

/-- No attribute that a struct inherits is its own: its ancestors do not lead back to it. -/
theorem not_owner_of_extends (h : t.Sound) (hrooted : t.Rooted n) (hp : t.Extends n p)
    {owner : String} (howner : t.Below p owner) : owner ≠ n := by
  rintro rfl
  exact not_transGen_self h.registry.parent?_root hrooted ((transGen_iff hp).2 howner)

/-- How a struct is merged with its parent, once that is merged. -/
theorem inheritFrom_iff (h : t.Sound) (hn : Builtin.structs.contains n = false)
    (hs : t.struct? n = some s) {sp₀ : Struct} (hparent : t.MergedFrom p sp₀ sp) :
    (Struct.inheritFrom sp).run s = .ok () s' ↔
      Struct.Fits sp.methodsBySlot s.methodsBySlot sp.attributesBySlot s.attributesBySlot ∧
      s'.Laid (Method.layout sp.methodsBySlot s.methodsBySlot)
        (Attr.layout sp.attributesBySlot s.attributesBySlot) ∧
      s' = { s with
        methods := s'.methods, nextMethodSlot := s'.nextMethodSlot, attributes := s'.attributes
        nextAttributeSlot := s'.nextAttributeSlot, consolidated := true } := by
  obtain ⟨ms, as, hown⟩ := h.contents.own n s hn hs
  rw [hown.laid.methodsBySlot_eq, hown.laid.attributesBySlot_eq]
  exact Struct.inheritFrom_eq_ok hparent.laid hown.laid (fun m hm => (hown.methods m hm).1)
    fun a ha => (hown.attributes a ha).2

/-- A struct that may be a parent, or that a program declares, is numbered when it is merged. -/
theorem Merged.mergedFrom (h : t.Sound) (hrooted : ∀ n, t.contains n = true → t.Rooted n)
    (hmerged : t.Merged n s') (hn : n = Builtin.root ∨ Builtin.structs.contains n = false)
    (hs : t.struct? n = some s) : t.MergedFrom n s s' := by
  induction hmerged generalizing s with
  | @builtin n s' hbuiltin hs' =>
    rcases hn with rfl | hn
    · rw [hs] at hs'
      cases hs'
      exact mergedFrom_root h hs
    · rw [hbuiltin] at hn
      cases hn
  | @user n p r sp s' hn' hr hp hparent hmerge ih =>
    obtain rfl : s = r := Option.some.inj (hs.symm.trans hr)
    have hregistered := contains_iff_struct?.2 ⟨s, hs⟩
    have hextends : t.Extends n p := (parent?_of_struct? hs).trans hp
    have hopen := h.hierarchy.open_of_extends h.registry hextends
    obtain ⟨sp₀, hsp₀⟩ := hparent.exists_struct?
    have hparentFrom := ih (hopen.imp id And.left) hsp₀
    obtain ⟨hfits, hlaid, hkeeps⟩ := (inheritFrom_iff h hn' hs hparentFrom).1 hmerge
    obtain ⟨ms, as, hown⟩ := h.contents.own n s hn' hs
    have hattributes : ∀ a ∈ s'.attributesBySlot, a.inherited = true ∧ t.Below p a.owner ∨
        a.inherited = false ∧ a.owner = n := by
      intro a ha
      rw [hlaid.attributesBySlot_eq, hown.laid.attributesBySlot_eq] at ha
      obtain ⟨b, slot, ⟨hb, rfl⟩ | ⟨hb, rfl⟩⟩ := Attr.exists_of_mem_layout ha
      · exact .inl ⟨rfl, hparentFrom.owners b hb⟩
      · obtain ⟨howner, hmark⟩ := hown.attributes b hb
        exact .inr ⟨hmark, howner.trans (h.registry.name_eq hs)⟩
    refine ⟨hkeeps, ?_, fun a ha => ?_, fun a ha => ?_⟩
    · rw [hlaid.methodsBySlot_eq, hlaid.attributesBySlot_eq]
      exact hlaid
    · rcases hattributes a ha with ⟨_, hbelow⟩ | ⟨_, howner⟩
      · exact Relation.ReflTransGen.head hextends hbelow
      · rw [howner]
        exact .refl
    · -- the owner of a copy is a proper ancestor, and these do not lead back to the struct
      rcases hattributes a ha with ⟨hmark, hbelow⟩ | ⟨hmark, howner⟩
      · exact iff_of_true hmark (not_owner_of_extends h (hrooted n hregistered) hextends hbelow)
      · simp [hmark, howner]

/-- The merge of a struct that a program declares, with its parent. -/
theorem merged_iff_of_user (h : t.Sound) (hrooted : ∀ n, t.contains n = true → t.Rooted n)
    (hn : Builtin.structs.contains n = false) (hs : t.struct? n = some s) :
    t.Merged n s' ↔ ∃ p sp, s.parent = some p ∧ t.Merged p sp ∧
      Struct.Fits sp.methodsBySlot s.methodsBySlot sp.attributesBySlot s.attributesBySlot ∧
      s'.Laid (Method.layout sp.methodsBySlot s.methodsBySlot)
        (Attr.layout sp.attributesBySlot s.attributesBySlot) ∧
      s' = { s with
        methods := s'.methods, nextMethodSlot := s'.nextMethodSlot, attributes := s'.attributes
        nextAttributeSlot := s'.nextAttributeSlot, consolidated := true } := by
  have hfrom : ∀ {p sp}, s.parent = some p → t.Merged p sp → ∃ sp₀, t.MergedFrom p sp₀ sp := by
    intro p sp hp hparent
    obtain ⟨sp₀, hsp₀⟩ := hparent.exists_struct?
    have hopen := h.hierarchy.open_of_extends h.registry ((parent?_of_struct? hs).trans hp)
    exact ⟨sp₀, hparent.mergedFrom h hrooted (hopen.imp id And.left) hsp₀⟩
  constructor
  · intro hmerged
    cases hmerged with
    | builtin hn' _ =>
      rw [hn] at hn'
      cases hn'
    | user _ hs' hp hparent hmerge =>
      rw [hs] at hs'
      cases hs'
      obtain ⟨sp₀, hparentFrom⟩ := hfrom hp hparent
      exact ⟨_, _, hp, hparent, (inheritFrom_iff h hn hs hparentFrom).1 hmerge⟩
  · rintro ⟨p, sp, hp, hparent, hrest⟩
    obtain ⟨sp₀, hparentFrom⟩ := hfrom hp hparent
    exact .user hn hs hp hparent ((inheritFrom_iff h hn hs hparentFrom).2 hrest)

/-- A merged struct has the children that it had. -/
theorem Merged.children_eq (h : t.Sound) (hrooted : ∀ n, t.contains n = true → t.Rooted n)
    (hmerged : t.Merged n s') (hs : t.struct? n = some s) : s'.children = s.children := by
  cases hbuiltin : Builtin.structs.contains n with
  | true =>
    rw [Merged.of_builtin hbuiltin] at hmerged
    cases hs.symm.trans hmerged
    rfl
  | false =>
    obtain ⟨_, _, _, _, _, _, hkeeps⟩ := (merged_iff_of_user h hrooted hbuiltin hs).1 hmerged
    rw [hkeeps]

/-- Induction over the merged structs that may be parents: the root, and from a parent to a struct
that a program declares. -/
@[elab_as_elim]
theorem Merged.induct (h : t.Sound) (hrooted : ∀ n, t.contains n = true → t.Rooted n)
    {motive : String → Struct → Prop}
    (root : ∀ s, t.struct? Builtin.root = some s → s.Laid [] [] → motive Builtin.root s)
    (user : ∀ n p s sp s', Builtin.structs.contains n = false → t.struct? n = some s →
      t.Extends n p → motive p sp →
      Struct.Fits sp.methodsBySlot s.methodsBySlot sp.attributesBySlot s.attributesBySlot →
      s'.Laid (Method.layout sp.methodsBySlot s.methodsBySlot)
        (Attr.layout sp.attributesBySlot s.attributesBySlot) → motive n s')
    (hmerged : t.Merged n s') (hn : n = Builtin.root ∨ Builtin.structs.contains n = false) :
    motive n s' := by
  induction hmerged with
  | @builtin n s' hbuiltin hs' =>
    rcases hn with rfl | hn
    · exact root s' hs' (h.registry.laid_root hs')
    · rw [hbuiltin] at hn
      cases hn
  | @user n p s sp s' hn' hs hp hparent hmerge ih =>
    have hextends : t.Extends n p := (parent?_of_struct? hs).trans hp
    have hopen := h.hierarchy.open_of_extends h.registry hextends
    obtain ⟨_, _, hp', hparent', hfits, hlaid, _⟩ := (merged_iff_of_user h hrooted hn' hs).1
      (.user hn' hs hp hparent hmerge)
    rw [hp] at hp'
    cases hp'
    cases hparent.unique hparent'
    exact user n p s sp s' hn' hs hextends (ih (hopen.imp id And.left)) hfits hlaid

/-- Every method of a merged struct has been declared by the struct or an ancestor, and only its
slot may have changed. -/
theorem Merged.method_origin (h : t.Sound) (hrooted : ∀ n, t.contains n = true → t.Rooted n)
    (hmerged : t.Merged n s') (hn : n = Builtin.root ∨ Builtin.structs.contains n = false) :
    ∀ m ∈ s'.methodsBySlot, ∃ a sa b, t.Below n a ∧ m.owner = some a ∧ t.struct? a = some sa ∧
      b ∈ sa.methodsBySlot ∧ ∃ slot, m = { b with slot } := by
  refine Merged.induct h hrooted ?root ?user hmerged hn
  case root =>
    intro s hs hlaid m hm
    rw [hlaid.methodsBySlot_eq] at hm
    cases hm
  case user =>
    intro n p s sp s' hn hs hextends ih hfits hlaid m hm
    rw [hlaid.methodsBySlot_eq] at hm
    obtain ⟨b, hb | ⟨hb, _⟩, slot, rfl⟩ := Method.exists_of_mem_layout hm
    · obtain ⟨ms, as, hown⟩ := h.contents.own n s hn hs
      have howner := (hown.methods b (hown.laid.methodsBySlot_eq ▸ hb)).1
      rw [h.registry.name_eq hs] at howner
      exact ⟨n, s, b, .refl, howner, hs, hb, slot, rfl⟩
    · obtain ⟨a, sa, b₀, hbelow, howner, hsa, hb₀, slot', rfl⟩ := ih b hb
      exact ⟨a, sa, b₀, .head hextends hbelow, howner, hsa, hb₀, slot, rfl⟩

/-! ## Merging the children of a struct -/

theorem run_mergeChild (hs : t.struct? c = some s) :
    (mergeChild sp c).run t =
      if s.consolidated then .ok () t
      else match (Struct.inheritFrom sp).run s with
        | .ok _ s' => .ok () { t with structs := t.structs.insert c s' }
        | .error e s' => .error e { t with structs := t.structs.insert c s' } := by
  simp only [mergeChild, EStateM.run_bind, EStateM.run_get, hs]
  cases s.consolidated with
  | true => rfl
  | false =>
    simp only [Bool.false_eq_true, if_false]
    cases (Struct.inheritFrom sp).run s <;> rfl

/-- A built-in struct under the root is complete from the start. -/
theorem Registry.consolidated_of_builtin (hr : t.Registry) (hextends : t.Extends c p)
    (hbuiltin : Builtin.structs.contains c = true) (hs : t.struct? c = some s) :
    s.consolidated = true := by
  have hne := hr.ne_root hextends
  obtain ⟨b, hb⟩ := NameMap.contains_iff.1 hbuiltin
  rw [hr.builtin c b hne hb] at hs
  cases hs
  exact (Builtin.underRoot_of_get? hb hne).2.2.1

/-- The table `t'` is `t` with the structs of `names` merged. -/
structure MergedOn (t : SymbolTable) (names : List String) (t' : SymbolTable) : Prop where
  rest : t' = { t with structs := t'.structs }
  done : ∀ n ∈ names, Builtin.structs.contains n = false →
    ∃ s, t'.struct? n = some s ∧ t.Merged n s
  other : ∀ n, n ∉ names ∨ Builtin.structs.contains n = true → t'.struct? n = t.struct? n

namespace MergedOn

variable {u u' : SymbolTable} {names : List String}

theorem congr {names' : List String} (h : t.MergedOn names u) (hmem : ∀ n, n ∈ names ↔ n ∈ names') :
    t.MergedOn names' u where
  rest := h.rest
  done n hn := h.done n ((hmem n).2 hn)
  other n hn := h.other n (hn.imp (fun hnot hold => hnot ((hmem n).1 hold)) id)

/-- A merged struct of the list is found in the table. -/
theorem merged (h : t.MergedOn names u) (hn : n ∈ names) (hs : u.struct? n = some s) :
    t.Merged n s := by
  cases hbuiltin : Builtin.structs.contains n with
  | true =>
    rw [h.other n (.inr hbuiltin)] at hs
    exact .builtin hbuiltin hs
  | false =>
    obtain ⟨s', hs', hmerged⟩ := h.done n hn hbuiltin
    rw [hs] at hs'
    cases hs'
    exact hmerged

/-- A built-in struct is not merged, so it may be named among those that are. -/
theorem cons_builtin (h : t.MergedOn names u) (hbuiltin : Builtin.structs.contains c = true) :
    t.MergedOn (c :: names) u := by
  refine ⟨h.rest, fun n hn huser => ?_, fun n hn => ?_⟩
  · rcases List.mem_cons.1 hn with rfl | hn
    · rw [hbuiltin] at huser
      cases huser
    · exact h.done n hn huser
  · exact h.other n (hn.imp (fun hnot hold => hnot (List.mem_cons_of_mem _ hold)) id)

theorem insert {s : Struct} (h : t.MergedOn names u)
    (hbuiltin : Builtin.structs.contains c = false) (hmerged : t.Merged c s) :
    t.MergedOn (c :: names) { u with structs := u.structs.insert c s } := by
  have hstruct : ∀ n, struct? { u with structs := u.structs.insert c s } n =
      if n = c then some s else u.struct? n := fun n => NameMap.get?_insert _ _ _ _
  refine ⟨?_, fun n hn huser => ?_, fun n hn => ?_⟩
  · rw [h.rest]
  · rw [hstruct]
    by_cases hnc : n = c
    · rw [if_pos hnc, hnc]
      exact ⟨s, rfl, hmerged⟩
    · rw [if_neg hnc]
      exact h.done n ((List.mem_cons.1 hn).resolve_left hnc) huser
  · rw [hstruct, if_neg]
    · exact h.other n (hn.imp (fun hnot hold => hnot (List.mem_cons_of_mem _ hold)) id)
    · rintro rfl
      rcases hn with hn | hn
      · exact hn List.mem_cons_self
      · rw [hbuiltin] at hn
        cases hn

/-- One more child is merged with its parent, or the walk stops at it. -/
theorem mergeChild (h : t.MergedOn names u) (hr : t.Registry) (hparent : t.Merged p sp)
    (hextends : t.Extends c p) (hc : c ∉ names) :
    (∀ u', (mergeChild sp c).run u = .ok () u' → t.MergedOn (c :: names) u') ∧
    ((∃ s', t.Merged c s') → ∃ u', (SymbolTable.mergeChild sp c).run u = .ok () u') := by
  obtain ⟨s, hs⟩ := contains_iff_struct?.1 hextends.contains
  have hsu : u.struct? c = some s := (h.other c (.inl hc)).trans hs
  have hp : s.parent = some p := (parent?_of_struct? hs).symm.trans hextends
  rw [run_mergeChild hsu]
  cases hbuiltin : Builtin.structs.contains c with
  | true =>
    rw [hr.consolidated_of_builtin hextends hbuiltin hs, if_pos rfl]
    refine ⟨?_, fun _ => ⟨u, rfl⟩⟩
    rintro u' ⟨⟩
    exact h.cons_builtin hbuiltin
  | false =>
    rw [(hr.user c s hbuiltin hs).2.2.1, if_neg Bool.false_ne_true]
    constructor
    · intro u' hrun
      cases hmerge : (Struct.inheritFrom sp).run s with
      | error e s' =>
        rw [hmerge] at hrun
        cases hrun
      | ok _ s' =>
        rw [hmerge] at hrun
        cases hrun
        exact h.insert hbuiltin (.user hbuiltin hs hp hparent hmerge)
    · rintro ⟨s', hmerged⟩
      cases hmerged with
      | builtin hn _ =>
        rw [hbuiltin] at hn
        cases hn
      | user _ hs' hp' hparent' hmerge =>
        rw [hs] at hs'
        cases hs'
        rw [hp] at hp'
        cases hp'
        cases hparent.unique hparent'
        rw [hmerge]
        exact ⟨_, rfl⟩

/-- The children of a struct are merged with it one after the other. -/
theorem mergeChildren (h : t.MergedOn names u) (hr : t.Registry) (hparent : t.Merged p sp)
    {cs : List String} (hnodup : cs.Nodup) (hextends : ∀ c ∈ cs, t.Extends c p)
    (hnew : ∀ c ∈ cs, c ∉ names) :
    (∀ u', (cs.forM (SymbolTable.mergeChild sp)).run u = .ok () u' →
      t.MergedOn (cs ++ names) u') ∧
    ((∀ c ∈ cs, ∃ s', t.Merged c s') →
      ∃ u', (cs.forM (SymbolTable.mergeChild sp)).run u = .ok () u') := by
  induction cs generalizing u names with
  | nil =>
    refine ⟨?_, fun _ => ⟨u, rfl⟩⟩
    rintro u' ⟨⟩
    exact h
  | cons c cs ih =>
    obtain ⟨hc, hcs⟩ := List.nodup_cons.1 hnodup
    have hfirst :=
      h.mergeChild hr hparent (hextends c List.mem_cons_self) (hnew c List.mem_cons_self)
    have hrest : ∀ u₁, t.MergedOn (c :: names) u₁ → _ := fun u₁ hu₁ => ih hu₁ hcs
      (fun d hd => hextends d (List.mem_cons_of_mem _ hd)) fun d hd hmem => by
        rcases List.mem_cons.1 hmem with rfl | hmem
        · exact hc hd
        · exact hnew d (List.mem_cons_of_mem _ hd) hmem
    constructor
    · intro u' hrun
      obtain ⟨u₁, hrun₁, hrun₂⟩ := run_forM_cons_eq_ok.1 hrun
      refine ((hrest u₁ (hfirst.1 u₁ hrun₁)).1 u' hrun₂).congr fun n => ?_
      simp [or_left_comm]
    · intro hall
      obtain ⟨u₁, hrun₁⟩ := hfirst.2 (hall c List.mem_cons_self)
      obtain ⟨u', hrun₂⟩ := (hrest u₁ (hfirst.1 u₁ hrun₁)).2 fun d hd =>
        hall d (List.mem_cons_of_mem _ hd)
      exact ⟨u', run_forM_cons_eq_ok.2 ⟨u₁, hrun₁, hrun₂⟩⟩

end MergedOn

/-! ## The walk -/

/-- The walk over the tree of `t` has visited some structs and has others on its stack.  All of them
are merged, and they are the root and the children of the visited structs. -/
structure Walk (t : SymbolTable) (visited stack : List String) (u : SymbolTable) : Prop where
  merged : t.MergedOn (visited ++ stack) u
  nodup : (visited ++ stack).Nodup
  registered : ∀ n ∈ visited ++ stack, t.contains n = true
  root : Builtin.root ∈ visited ++ stack
  closed : ∀ c p, p ∈ visited → t.Extends c p → c ∈ visited ++ stack
  origin : ∀ c p, c ∈ visited ++ stack → t.Extends c p → p ∈ visited

namespace Walk

variable {u : SymbolTable} {visited stack : List String}

theorem start (hr : t.Registry) : t.Walk [] [Builtin.root] t where
  merged := by
    refine ⟨rfl, fun n hn huser => ?_, fun _ _ => rfl⟩
    rw [List.mem_singleton.1 hn] at huser
    cases huser
  nodup := List.nodup_singleton _
  registered n hn := by
    rw [List.mem_singleton.1 hn]
    exact hr.contains_root
  root := List.mem_singleton.2 rfl
  closed c p hp := by cases hp
  origin c p hc hextends := by
    rw [List.mem_singleton.1 hc, Extends, hr.parent?_root] at hextends
    cases hextends

/-- The struct on top of the stack is in the table, and it is merged. -/
theorem top (h : t.Walk visited (n :: stack) u) :
    ∃ s, u.struct? n = some s ∧ t.Merged n s := by
  have hmem : n ∈ visited ++ n :: stack := by simp
  cases hbuiltin : Builtin.structs.contains n with
  | true =>
    obtain ⟨s, hs⟩ := contains_iff_struct?.1 (h.registered n hmem)
    have hsu : u.struct? n = some s := (h.merged.other n (.inr hbuiltin)).trans hs
    exact ⟨s, hsu, .builtin hbuiltin hs⟩
  | false => exact h.merged.done n hmem hbuiltin

/-- The children of the struct on top of the stack have not been seen. -/
theorem not_seen (h : t.Walk visited (n :: stack) u) (hextends : t.Extends c n) :
    c ∉ visited ++ n :: stack := by
  intro hmem
  have hvisited := h.origin c n hmem hextends
  exact (List.nodup_append.1 h.nodup).2.2 n hvisited n List.mem_cons_self rfl

/-- One step of the walk: the children of the struct on top take its place. -/
theorem step (h : t.Walk visited (n :: stack) u) {cs : List String} (hnodup : cs.Nodup)
    (hcs : ∀ c, c ∈ cs ↔ t.Extends c n) {u' : SymbolTable}
    (hmerged : t.MergedOn (cs ++ (visited ++ n :: stack)) u') :
    t.Walk (n :: visited) (cs ++ stack) u' := by
  have hswap : (visited ++ (cs ++ stack)).Perm (cs ++ (visited ++ stack)) := by
    rw [← List.append_assoc, ← List.append_assoc]
    exact List.perm_append_comm.append_right stack
  have hperm : (n :: visited ++ (cs ++ stack)).Perm (cs ++ (visited ++ n :: stack)) :=
    ((hswap.cons n).trans List.perm_middle.symm).trans (List.perm_middle.symm.append_left cs)
  have hmem : ∀ m, m ∈ cs ++ (visited ++ n :: stack) ↔ m ∈ n :: visited ++ (cs ++ stack) :=
    fun m => hperm.mem_iff.symm
  refine ⟨hmerged.congr hmem, ?_, fun m hm => ?_, ?_, fun c p hp hextends => ?_,
    fun c p hc hextends => ?_⟩
  · rw [hperm.nodup_iff, List.nodup_append]
    refine ⟨hnodup, h.nodup, fun c hc d hd heq => ?_⟩
    exact h.not_seen ((hcs c).1 hc) (heq ▸ hd)
  · rcases List.mem_append.1 ((hmem m).2 hm) with hm | hm
    · exact ((hcs m).1 hm).contains
    · exact h.registered m hm
  · exact (hmem _).1 (List.mem_append_right _ h.root)
  · rw [← hmem]
    rcases List.mem_cons.1 hp with rfl | hp
    · exact List.mem_append_left _ ((hcs c).2 hextends)
    · exact List.mem_append_right _ (h.closed c p hp hextends)
  · rcases List.mem_append.1 ((hmem c).2 hc) with hc | hc
    · rw [hextends.parent_unique ((hcs c).1 hc)]
      exact List.mem_cons_self
    · exact List.mem_cons_of_mem _ (h.origin c p hc hextends)

/-- No more structs are seen than there are. -/
theorem length_le (h : t.Walk visited stack u) :
    visited.length + stack.length ≤ t.structs.size := by
  rw [← List.length_append]
  exact NameMap.length_le_size h.nodup h.registered

/-- When the stack is empty, every struct below the root has been visited. -/
theorem visited_all (h : t.Walk visited [] u) (hrooted : t.Rooted n) : n ∈ visited := by
  induction hrooted using Relation.ReflTransGen.head_induction_on with
  | refl => simpa using h.root
  | head hstep _ ih => simpa using h.closed _ _ ih hstep

end Walk

theorem run_mergeFrom_succ {u : SymbolTable} {steps : Nat} {stack : List String}
    (hs : u.struct? n = some s) :
    (mergeFrom (steps + 1) (n :: stack)).run u =
      (do
        s.children.names.reverse.forM (mergeChild s)
        mergeFrom steps (s.children.names ++ stack) : Declaring Unit).run u := by
  simp only [mergeFrom, EStateM.run_bind, EStateM.run_get, hs]

/-- A struct that is merged has the children that it had. -/
theorem Merged.children_iff (h : t.Sound) (hrooted : ∀ n, t.contains n = true → t.Rooted n)
    (hmerged : t.Merged n s) : s.children.contains c = true ↔ t.Extends c n := by
  cases hbuiltin : Builtin.structs.contains n with
  | true => exact h.hierarchy.faithful n s c ((of_builtin hbuiltin).1 hmerged)
  | false =>
    obtain ⟨s₀, hs₀⟩ := hmerged.exists_struct?
    rw [← h.hierarchy.faithful n s₀ c hs₀, (hmerged.mergedFrom h hrooted (.inr hbuiltin) hs₀).keeps]

/-- The walk ends with all structs visited, if every struct can be merged, and otherwise it fails:
the steps are enough, since every one of them visits another struct. -/
theorem mergeFrom_spec (h : t.Sound) (hrooted : ∀ n, t.contains n = true → t.Rooted n)
    {steps : Nat} {visited stack : List String} {u : SymbolTable} (hwalk : t.Walk visited stack u)
    (hsteps : t.structs.size ≤ steps + visited.length) :
    (∀ u', (mergeFrom steps stack).run u = .ok () u' → ∃ visited, t.Walk visited [] u') ∧
    ((∀ n, t.contains n = true → ∃ s, t.Merged n s) →
      ∃ u', (mergeFrom steps stack).run u = .ok () u') := by
  induction steps generalizing visited stack u with
  | zero =>
    have hempty : stack = [] := by
      have hlength := hwalk.length_le
      exact List.length_eq_zero_iff.1 (by omega)
    subst hempty
    refine ⟨?_, fun _ => ⟨u, rfl⟩⟩
    rintro u' ⟨⟩
    exact ⟨visited, hwalk⟩
  | succ steps ih =>
    cases stack with
    | nil =>
      refine ⟨?_, fun _ => ⟨u, rfl⟩⟩
      rintro u' ⟨⟩
      exact ⟨visited, hwalk⟩
    | cons n stack =>
      obtain ⟨s, hs, hmerged⟩ := hwalk.top
      have hchildren : ∀ c, c ∈ s.children.names ↔ t.Extends c n := fun c =>
        NameMap.mem_names_iff.trans (hmerged.children_iff h hrooted)
      have hmerge := hwalk.merged.mergeChildren h.registry hmerged
        (List.nodup_reverse.2 s.children.nodup_names)
        (fun c hc => (hchildren c).1 (List.mem_reverse.1 hc))
        fun c hc => hwalk.not_seen ((hchildren c).1 (List.mem_reverse.1 hc))
      have hnext : ∀ u₁, (s.children.names.reverse.forM (mergeChild s)).run u = .ok () u₁ →
          t.Walk (n :: visited) (s.children.names ++ stack) u₁ := fun u₁ hrun =>
        hwalk.step s.children.nodup_names hchildren
          ((hmerge.1 u₁ hrun).congr fun m => by simp)
      have hsteps' : t.structs.size ≤ steps + (n :: visited).length := by
        rw [List.length_cons]
        omega
      rw [run_mergeFrom_succ hs]
      constructor
      · intro u' hrun
        obtain ⟨_, u₁, hrun₁, hrun₂⟩ := run_bind_eq_ok.1 hrun
        exact (ih (hnext u₁ hrun₁) hsteps').1 u' hrun₂
      · intro hall
        obtain ⟨u₁, hrun₁⟩ := hmerge.2 fun c hc =>
          hall c ((hchildren c).1 (List.mem_reverse.1 hc)).contains
        obtain ⟨u', hrun₂⟩ := (ih (hnext u₁ hrun₁) hsteps').2 hall
        exact ⟨u', run_bind_eq_ok.2 ⟨(), u₁, hrun₁, hrun₂⟩⟩

/-! ## Completing a table -/

/-- Nothing that a program refers to is undeclared, and no struct lacks a part. -/
structure Complete (t : SymbolTable) : Prop where
  parents : ∀ p, t.pendingParents.get? p = none
  types : ∀ n, t.pendingTypes.get? n = none
  parts : ∀ n s, t.struct? n = some s → s.builtin = false → s.missingPart? = none

theorem undeclared?_eq_none_iff : t.undeclared? = none ↔
    (∀ p, t.pendingParents.get? p = none) ∧ ∀ n, t.pendingTypes.get? n = none := by
  rw [undeclared?, ← NameMap.first?_eq_none_iff, ← NameMap.first?_eq_none_iff]
  cases t.pendingParents.first? <;> cases t.pendingTypes.first? <;> simp

theorem incomplete?_eq_none_iff : t.incomplete? = none ↔
    ∀ n s, t.struct? n = some s → s.builtin = false → s.missingPart? = none := by
  rw [incomplete?, List.findSome?_eq_none_iff]
  simp only [Option.map_eq_none_iff, userStructs, List.mem_filter, NameMap.mem_values_iff,
    Bool.not_eq_true', struct?]
  constructor
  · intro h n s hs hbuiltin
    exact h s ⟨⟨n, hs⟩, hbuiltin⟩
  · rintro h s ⟨⟨n, hs⟩, hbuiltin⟩
    exact h n s hs hbuiltin

theorem complete_iff : t.Complete ↔ t.undeclared? = none ∧ t.incomplete? = none := by
  rw [undeclared?_eq_none_iff, incomplete?_eq_none_iff]
  exact ⟨fun h => ⟨⟨h.parents, h.types⟩, h.parts⟩, fun h => ⟨h.1.1, h.1.2, h.2⟩⟩

/-- A table that is not complete is refused, and stays as it is.  Otherwise the walk starts. -/
theorem run_consolidate_eq (t : SymbolTable) :
    consolidate.run t =
      if t.consolidated then .ok () t
      else match t.undeclared?.or t.incomplete? with
        | some e => .error e t
        | none =>
          (do
            mergeFrom t.structs.size [Builtin.root]
            modify fun t => { t with consolidated := true } : Declaring Unit).run t := by
  simp only [consolidate, EStateM.run_bind, EStateM.run_get]
  cases t.consolidated with
  | true => rfl
  | false =>
    cases t.undeclared? with
    | some e => rfl
    | none => cases t.incomplete? <;> rfl

theorem complete_iff_refusal : t.Complete ↔ t.undeclared?.or t.incomplete? = none := by
  rw [complete_iff, Option.or_eq_none_iff]

theorem run_consolidate (hfirst : t.consolidated = false) (hcomplete : t.Complete) :
    consolidate.run t =
      (do
        mergeFrom t.structs.size [Builtin.root]
        modify fun t => { t with consolidated := true } : Declaring Unit).run t := by
  rw [run_consolidate_eq, hfirst, complete_iff_refusal.1 hcomplete]
  rfl

theorem complete_of_consolidate (hfirst : t.consolidated = false)
    (hrun : consolidate.run t = .ok () t') : t.Complete := by
  rw [run_consolidate_eq, hfirst] at hrun
  rw [complete_iff_refusal]
  cases hrefusal : t.undeclared?.or t.incomplete? with
  | none => rfl
  | some e =>
    rw [hrefusal] at hrun
    cases hrun

/-- A complete table is a tree: every struct has its struct item, so there is no cycle. -/
theorem Complete.rooted (hcomplete : t.Complete) (h : t.Sound) (hn : t.contains n = true) :
    t.Rooted n := by
  refine h.forms.grounded n hn fun a _ hloose => ?_
  obtain ⟨huser, hstructural⟩ := hloose
  obtain ⟨s, hs, hfalse⟩ := Option.map_eq_some_iff.1 hstructural
  have hparts := hcomplete.parts a s hs ((h.registry.builtin_eq hs).trans huser)
  rw [Struct.missingPart?, hfalse] at hparts
  cases hparts

/-- The table `t'` is `t` with all structs merged. -/
structure Completes (t t' : SymbolTable) : Prop where
  rest : t' = { t with structs := t'.structs, consolidated := true }
  struct?_iff : ∀ n s, t'.struct? n = some s ↔ t.Merged n s

theorem Completes.unique {u : SymbolTable} (h : t.Completes t') (h' : t.Completes u) : t' = u := by
  have hstructs : t'.structs = u.structs := by
    refine NameMap.ext_get? fun n => Option.ext fun s => ?_
    exact (h.struct?_iff n s).trans (h'.struct?_iff n s).symm
  rw [h.rest, h'.rest, hstructs]

theorem Walk.completes (hrooted : ∀ n, t.contains n = true → t.Rooted n) {visited : List String}
    {u : SymbolTable} (h : t.Walk visited [] u) : t.Completes { u with consolidated := true } := by
  refine ⟨by rw [h.merged.rest], fun n s => ?_⟩
  show u.struct? n = some s ↔ _
  by_cases hn : t.contains n = true
  · have hmem : n ∈ visited ++ [] := by simpa using h.visited_all (hrooted n hn)
    constructor
    · exact h.merged.merged hmem
    · intro hmerged
      cases hbuiltin : Builtin.structs.contains n with
      | true =>
        rw [h.merged.other n (.inr hbuiltin)]
        exact (Merged.of_builtin hbuiltin).1 hmerged
      | false =>
        obtain ⟨s', hs', hmerged'⟩ := h.merged.done n hmem hbuiltin
        rw [hs', hmerged.unique hmerged']
  · have hnone := contains_eq_false_iff_struct?.1 (Bool.eq_false_iff.2 hn)
    have hnot : n ∉ visited ++ [] := fun hmem => hn (h.registered n hmem)
    rw [h.merged.other n (.inl hnot), hnone]
    refine iff_of_false (by simp) fun hmerged => ?_
    obtain ⟨s₀, hs₀⟩ := hmerged.exists_struct?
    rw [hnone] at hs₀
    cases hs₀

/-- A complete table whose structs can all be merged is completed. -/
theorem exists_consolidate (h : t.Sound) (hfirst : t.consolidated = false)
    (hcomplete : t.Complete) (hall : ∀ n, t.contains n = true → ∃ s, t.Merged n s) :
    ∃ t', consolidate.run t = .ok () t' ∧ t.Completes t' := by
  have hrooted : ∀ n, t.contains n = true → t.Rooted n := fun n hn => hcomplete.rooted h hn
  have hsteps : t.structs.size ≤ t.structs.size + ([] : List String).length := Nat.le_refl _
  have hspec := mergeFrom_spec h hrooted (Walk.start h.registry) hsteps
  obtain ⟨u, hrun⟩ := hspec.2 hall
  obtain ⟨visited, hwalk⟩ := hspec.1 u hrun
  refine ⟨_, ?_, hwalk.completes hrooted⟩
  rw [run_consolidate hfirst hcomplete, run_bind_eq_ok]
  exact ⟨(), u, hrun, rfl⟩

/-- A table that has not been completed before is completed exactly when it is complete and every
struct can be merged. -/
theorem consolidate_eq_ok (h : t.Sound) (hfirst : t.consolidated = false) :
    consolidate.run t = .ok () t' ↔
      t.Complete ∧ (∀ n, t.contains n = true → ∃ s, t.Merged n s) ∧ t.Completes t' := by
  constructor
  · intro hrun
    have hcomplete := complete_of_consolidate hfirst hrun
    have hrooted : ∀ n, t.contains n = true → t.Rooted n := fun n hn => hcomplete.rooted h hn
    rw [run_consolidate hfirst hcomplete] at hrun
    obtain ⟨_, u, hrun, hlast⟩ := run_bind_eq_ok.1 hrun
    obtain ⟨visited, hwalk⟩ := (mergeFrom_spec h hrooted (Walk.start h.registry) (by simp)).1 u hrun
    have hcompletes := hwalk.completes hrooted
    cases hlast
    refine ⟨hcomplete, fun n hn => ?_, hcompletes⟩
    have hmem : n ∈ visited ++ [] := by simpa using hwalk.visited_all (hrooted n hn)
    cases hbuiltin : Builtin.structs.contains n with
    | true =>
      obtain ⟨s, hs⟩ := contains_iff_struct?.1 hn
      exact ⟨s, .builtin hbuiltin hs⟩
    | false =>
      obtain ⟨s, _, hmerged⟩ := hwalk.merged.done n hmem hbuiltin
      exact ⟨s, hmerged⟩
  · rintro ⟨hcomplete, hall, hcompletes⟩
    obtain ⟨u, hrun, hu⟩ := exists_consolidate h hfirst hcomplete hall
    rwa [hcompletes.unique hu]

end StructLang.SymbolTable
