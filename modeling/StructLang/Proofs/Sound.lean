import StructLang.Proofs.Invariant

/-!
# Declarations keep the invariants

`Step.sound`: every step of a declaration keeps the invariants, so every table that declarations
make from the empty one is `Sound`.

The work is in the declaration of a struct, which may move several structs at once.  A struct whose
ancestors avoid the declared one has the ancestors that it had (`below_place_iff`).  If the
declaration is accepted, the declared struct is rooted, and so is what stands below it
(`Forms.placed`).  If it is refused for a cycle, the declared struct has no struct item yet or it
has not moved at all (`Forms.misplaced`).

In a sound table the search for a cycle above a struct finds one exactly when the struct is not a
subtype of the root (`Sound.isCyclic_eq_not_isSubtype`).
-/

namespace StructLang

namespace SymbolTable

variable {t t' : SymbolTable} {c n p : String}

/-! ## Taking a place -/

/-- The ancestors of a struct are the same in two tables if their parents are. -/
theorem below_iff_of_parent?_eq {a : String}
    (h : ∀ a, t.Below n a → t'.parent? a = t.parent? a) : t'.Below n a ↔ t.Below n a := by
  constructor
  · intro hbelow
    induction hbelow with
    | refl => exact .refl
    | tail _ hstep ih => exact ih.tail ((h _ ih).symm.trans hstep)
  · intro hbelow
    induction hbelow with
    | refl => exact .refl
    | tail hbelow hstep ih => exact ih.tail ((h _ hbelow).trans hstep)

namespace Hierarchy

theorem contains_orphan (h : t.Hierarchy) (hc : c ∈ t.orphans p) : t.contains c = true :=
  (h.orphan p c hc).1.contains

theorem orphans_of_contains (h : t.Hierarchy) (hp : t.contains p = true) : t.orphans p = [] := by
  rw [orphans, waitingFor]
  cases hget : t.pendingParents.get? p with
  | none => rfl
  | some ws =>
    rw [(h.awaited p ws hget).2] at hp
    cases hp

/-- A parent is the root or a struct that a program declares. -/
theorem open_of_extends (h : t.Hierarchy) (hr : t.Registry) (hextends : t.Extends c p) :
    p = Builtin.root ∨ Builtin.structs.contains p = false ∧ t.contains p = true := by
  obtain ⟨q, hq, hopen⟩ := h.parent c hextends.contains (hr.ne_root hextends)
  rwa [hextends.parent_unique hq]

theorem contains_parent (h : t.Hierarchy) (hr : t.Registry) (hextends : t.Extends c p) :
    t.contains p = true := by
  rcases h.open_of_extends hr hextends with rfl | ⟨_, hcontains⟩
  · exact hr.contains_root
  · exact hcontains

/-- The walk that looks for a cycle finds one exactly if the ancestors do not lead to the root. -/
theorem isCyclic_iff (h : t.Hierarchy) (hr : t.Registry) (hn : t.contains n = true)
    (hne : n ≠ Builtin.root) : t.isCyclic n = true ↔ ¬ t.Rooted n :=
  isCyclic_iff_not_rooted hr.parent?_root (fun c hc hroot =>
    (h.parent c hc hroot).imp fun _ => And.imp_right (Or.imp_right And.right)) hn hne

end Hierarchy

section Placed

variable {token : Token} {parent : Option Token} {form : Form}

/-- The place that a declaration gives at once is the root or a struct that a program declares. -/
theorem home_open (hsealed : ∀ p, parent = some p → Builtin.isSealed p.lexeme = false) :
    t.home parent = Builtin.root ∨
      Builtin.structs.contains (t.home parent) = false ∧ t.contains (t.home parent) = true := by
  cases parent with
  | none => exact .inl rfl
  | some p =>
    rw [home]
    split
    · next hp =>
      have hopen := hsealed p rfl
      simp only [Builtin.isSealed, Bool.and_eq_false_iff, bne_eq_false_iff_eq] at hopen
      exact hopen.imp id fun hfree => ⟨Builtin.contains_eq_false_of_not_reserved hfree, hp⟩
    · exact .inl rfl

theorem home_of_not_contains (h : parent.map (·.lexeme) = some p) (hp : t.contains p = false) :
    t.home parent = Builtin.root := by
  obtain ⟨q, rfl, rfl⟩ := Option.map_eq_some_iff.1 h
  rw [home, hp]
  rfl

/-- A struct that waits has its struct item, so no struct item of its name is accepted. -/
theorem not_mem_orphans (h : t.Hierarchy) (hf : t.Forms)
    (hfree : t.structRefusal? token parent .structural = none) : token.lexeme ∉ t.orphans p := by
  intro hmem
  obtain ⟨s, hs⟩ := contains_iff_struct?.1 (h.contains_orphan hmem)
  have hhas : s.structural = false := (structRefusal?_eq_none_iff.1 hfree).2.1 s hs
  refine hf.orphan p _ hmem ⟨(h.orphan p _ hmem).2, ?_⟩
  rw [hs, Option.map_some, hhas]

/-- Only a struct item has a parent. -/
theorem form_of_parent (hform : form = .implementation → parent = none)
    (hp : parent.map (·.lexeme) = some p) : form = .structural := by
  cases form with
  | structural => rfl
  | implementation =>
    rw [hform rfl] at hp
    cases hp

/-- The parent of a struct is the declared struct, its home, or the one that was there. -/
theorem exists_parent_place {good good' : String → Prop}
    (hne : ∀ p, parent = some p → p.lexeme ≠ token.lexeme)
    (horphans : ∀ c ∈ t.orphans token.lexeme, t.contains c = true)
    (hself : good' token.lexeme) (hhome : good' (t.home parent)) (hold : ∀ p, good p → good' p)
    (hparents : ∀ c, t.contains c = true → c ≠ Builtin.root → ∃ p, t.Extends c p ∧ good p)
    (hc : (t.place token parent form).contains c = true) (hroot : c ≠ Builtin.root) :
    ∃ p, (t.place token parent form).Extends c p ∧ good' p := by
  rw [contains_place hne] at hc
  simp only [Extends, parent?_place hne horphans]
  by_cases hmem : c ∈ t.orphans token.lexeme
  · exact ⟨token.lexeme, if_pos hmem, hself⟩
  by_cases hown : c = token.lexeme ∧ (t.contains token.lexeme = false ∨ form = .structural)
  · exact ⟨t.home parent, by rw [if_neg hmem, if_pos hown], hhome⟩
  · have hregistered : t.contains c = true := by
      by_contra hnew
      have hname : c = token.lexeme := by simpa [hnew] using hc
      exact hown ⟨hname, .inl (hname ▸ Bool.eq_false_iff.2 hnew)⟩
    obtain ⟨p, hp, hgood⟩ := hparents c hregistered hroot
    exact ⟨p, by rw [if_neg hmem, if_neg hown]; exact hp, hold p hgood⟩

theorem Hierarchy.place (h : t.Hierarchy) (hf : t.Forms) (hr : t.Registry)
    (hfree : t.structRefusal? token parent form = none)
    (hform : form = .implementation → parent = none) :
    (t.place token parent form).Hierarchy := by
  obtain ⟨hreserved, hfresh, hparents⟩ := structRefusal?_eq_none_iff.1 hfree
  have hne := fun p hp => (hparents p hp).2
  have huser := Builtin.contains_eq_false_of_not_reserved hreserved
  have horphans : ∀ c ∈ t.orphans token.lexeme, t.contains c = true :=
    fun c hc => h.contains_orphan hc
  refine ⟨h.faithful.place hne horphans (fun c p => h.contains_parent hr) hr.contains_root,
    fun c hc hroot => ?_, fun p ws hws => ?_, fun p c hc => ?_, fun p q c hp hq => ?_⟩
  · simp only [contains_place hne]
    refine exists_parent_place hne horphans ?_ ?_ (fun p hopen => ?_) h.parent hc hroot
    · exact .inr ⟨huser, by simp⟩
    · exact (home_open fun p hp => (hparents p hp).1).imp id (And.imp_right fun h₂ => by simp [h₂])
    · exact hopen.imp id (And.imp_right fun h₂ => by simp [h₂])
  · obtain ⟨hp, hold | ⟨hnone, hsome⟩⟩ := pendingParents_place hne hws
    · obtain ⟨hsome, hnone⟩ := h.awaited p ws hold
      exact ⟨hsome, by simp [contains_place hne, hp, hnone]⟩
    · exact ⟨hsome, by simp [contains_place hne, hp, hnone]⟩
  · obtain ⟨hp, hold | ⟨rfl, hnone, hawait⟩⟩ := (mem_orphans_place hne).1 hc
    · obtain ⟨hextends, hnot⟩ := h.orphan p c hold
      refine ⟨?_, hnot⟩
      rw [Extends, parent?_place hne horphans,
        if_neg fun hmem => hp (h.orphan_once _ _ _ hold hmem), if_neg]
      · exact hextends
      · rintro ⟨rfl, hnew | rfl⟩
        · rw [hextends.contains] at hnew
          cases hnew
        · exact not_mem_orphans h hf hfree hold
    · have hstructural := form_of_parent hform hawait
      subst hstructural
      refine ⟨?_, huser⟩
      rw [Extends, parent?_place hne horphans, if_neg (not_mem_orphans h hf hfree),
        if_pos ⟨rfl, .inr rfl⟩, home_of_not_contains hawait hnone]
  · obtain ⟨_, hp'⟩ := (mem_orphans_place hne).1 hp
    obtain ⟨_, hq'⟩ := (mem_orphans_place hne).1 hq
    -- the declared struct did not wait before, if it waits now
    have hnot : ∀ {r u}, parent.map (·.lexeme) = some r → token.lexeme ∉ t.orphans u := by
      intro r u hr
      have hstructural := form_of_parent hform hr
      subst hstructural
      exact not_mem_orphans h hf hfree
    rcases hp' with hp' | ⟨rfl, _, hp'⟩ <;> rcases hq' with hq' | ⟨hc, _, hq'⟩
    · exact h.orphan_once p q c hp' hq'
    · exact absurd (hc ▸ hp') (hnot hq')
    · exact absurd hq' (hnot hp')
    · exact Option.some.inj (hp'.symm.trans hq')

theorem loose_place (hfree : t.structRefusal? token parent form = none) :
    (t.place token parent form).Loose n ↔
      t.Loose n ∨ n = token.lexeme ∧ t.contains token.lexeme = false := by
  obtain ⟨hreserved, _, hparents⟩ := structRefusal?_eq_none_iff.1 hfree
  have hplaced : ((t.place token parent form).struct? n).map Struct.detached = _ :=
    detached_place (fun p hp => (hparents p hp).2) n
  have hdetached := congrArg (Option.map Struct.structural) hplaced
  rw [Option.map_map] at hdetached
  rw [Loose, Loose,
    show ((t.place token parent form).struct? n).map (·.structural) = _ from hdetached]
  by_cases hnew : n = token.lexeme ∧ t.contains token.lexeme = false
  · have huser : Builtin.structs.contains n = false :=
      hnew.1 ▸ Builtin.contains_eq_false_of_not_reserved hreserved
    rw [if_pos hnew]
    exact iff_of_true ⟨huser, rfl⟩ (.inr hnew)
  · rw [if_neg hnew, Option.map_map]
    exact ⟨.inl, fun h => h.resolve_right hnew⟩

/-- A struct whose ancestors avoid the declared one has the ancestors that it had. -/
theorem below_place_iff (horphans : ∀ c ∈ t.orphans token.lexeme, t.contains c = true)
    (hne : ∀ p, parent = some p → p.lexeme ≠ token.lexeme)
    (hnot : ¬ (t.place token parent form).Below n token.lexeme) {a : String} :
    t.Below n a ↔ (t.place token parent form).Below n a := by
  refine below_iff_of_parent?_eq fun a ha => ?_
  have hname : a ≠ token.lexeme := fun heq => hnot (heq ▸ ha)
  have hparent : (t.place token parent form).parent? a ≠ some token.lexeme := fun heq =>
    hnot (ha.tail heq)
  rw [parent?_place hne horphans] at hparent ⊢
  rw [if_neg fun hmem => hparent (if_pos hmem), if_neg fun hown => hname hown.1]

theorem contains_of_not_below_place (hne : ∀ p, parent = some p → p.lexeme ≠ token.lexeme)
    (hn : (t.place token parent form).contains n = true)
    (hnot : ¬ (t.place token parent form).Below n token.lexeme) : t.contains n = true := by
  have hname : n ≠ token.lexeme := fun heq => hnot (heq ▸ .refl)
  simpa [contains_place hne, hname] using hn

/-- When a struct has taken a place under the root, every other struct still stands there. -/
theorem rooted_place (horphans : ∀ c ∈ t.orphans token.lexeme, t.contains c = true)
    (hne : ∀ p, parent = some p → p.lexeme ≠ token.lexeme)
    (hrooted : ∀ n, t.contains n = true → t.Rooted n)
    (hplaced : (t.place token parent form).Rooted token.lexeme)
    (hn : (t.place token parent form).contains n = true) :
    (t.place token parent form).Rooted n := by
  by_cases hbelow : (t.place token parent form).Below n token.lexeme
  · exact hbelow.trans hplaced
  · exact (below_place_iff horphans hne hbelow).1
      (hrooted n (contains_of_not_below_place hne hn hbelow))

theorem rooted_place_of_not_below (h : t.Hierarchy) (hf : t.Forms)
    (hfree : t.structRefusal? token parent form = none)
    (hn : (t.place token parent form).contains n = true)
    (hnot : ¬ (t.place token parent form).Below n token.lexeme)
    (habove : ∀ a, (t.place token parent form).Below n a → ¬ t.Loose a) :
    (t.place token parent form).Rooted n := by
  have hne := fun p hp => ((structRefusal?_eq_none_iff.1 hfree).2.2 p hp).2
  have hold := contains_of_not_below_place hne hn hnot
  have hbelow {a : String} : t.Below n a ↔ (t.place token parent form).Below n a :=
    below_place_iff (fun c hc => h.contains_orphan hc) hne hnot
  rw [Rooted, ← hbelow]
  exact hf.grounded n hold fun a ha => habove a (hbelow.1 ha)

/-- A struct that waited before still waits for a parent with its struct item; the declared one
waits only as the struct item of a struct under the root. -/
theorem orphan_place_cases (h : t.Hierarchy) (hf : t.Forms)
    (hfree : t.structRefusal? token parent form = none)
    (hform : form = .implementation → parent = none)
    (hc : c ∈ (t.place token parent form).orphans p) :
    ¬ (t.place token parent form).Loose c ∨
      c = token.lexeme ∧ form = .structural ∧
        (t.place token parent form).Extends c Builtin.root := by
  have hne := fun p hp => ((structRefusal?_eq_none_iff.1 hfree).2.2 p hp).2
  obtain ⟨_, hold | ⟨rfl, hnone, hawait⟩⟩ := (mem_orphans_place hne).1 hc
  · left
    rw [loose_place hfree]
    rintro (hloose | ⟨rfl, hnew⟩)
    · exact hf.orphan p c hold hloose
    · rw [h.contains_orphan hold] at hnew
      cases hnew
  · have hstructural := form_of_parent hform hawait
    subst hstructural
    refine .inr ⟨rfl, rfl, ?_⟩
    rw [Extends, parent?_place hne fun c hc => h.contains_orphan hc,
      if_neg (not_mem_orphans h hf hfree), if_pos ⟨rfl, .inr rfl⟩,
      home_of_not_contains hawait hnone]

theorem Forms.misplaced (hf : t.Forms) (h : t.Hierarchy)
    (hfree : t.structRefusal? token parent form = none)
    (hform : form = .implementation → parent = none)
    (hcycle : ¬ (t.place token parent form).Rooted token.lexeme) :
    (t.place token parent form).Forms := by
  obtain ⟨_, hfresh, hparents⟩ := structRefusal?_eq_none_iff.1 hfree
  have hne := fun p hp => (hparents p hp).2
  refine ⟨fun p c hc => ?_, fun n hn habove => ?_⟩
  · rcases orphan_place_cases h hf hfree hform hc with hloose | ⟨rfl, _, hroot⟩
    · exact hloose
    · exact absurd (Relation.ReflTransGen.single hroot) hcycle
  by_cases hbelow : (t.place token parent form).Below n token.lexeme
  · -- the struct has its struct item, so the declaration is its impl block and moves nothing
    have hname := habove _ hbelow
    rw [loose_place hfree, not_or] at hname
    have hregistered : t.contains token.lexeme = true := by
      by_contra hnew
      exact hname.2 ⟨rfl, Bool.eq_false_iff.2 hnew⟩
    have himpl : form ≠ .structural := by
      rintro rfl
      obtain ⟨s, hs⟩ := contains_iff_struct?.1 hregistered
      have huser := Builtin.contains_eq_false_of_not_reserved (structRefusal?_eq_none_iff.1 hfree).1
      exact hname.1 ⟨huser, by rw [hs, Option.map_some, show s.structural = false from hfresh s hs]⟩
    have hsame : ∀ a, (t.place token parent form).parent? a = t.parent? a := by
      intro a
      rw [parent?_place hne fun c hc => h.contains_orphan hc, h.orphans_of_contains hregistered,
        if_neg List.not_mem_nil, if_neg]
      rintro ⟨_, hnew | hstructural⟩
      · rw [hregistered] at hnew
        cases hnew
      · exact himpl hstructural
    have hold : t.contains n = true := by
      rw [contains_place hne] at hn
      by_cases hnn : n = token.lexeme
      · exact hnn ▸ hregistered
      · simpa [hnn] using hn
    rw [Rooted, below_iff_of_parent?_eq fun a _ => hsame a]
    refine hf.grounded n hold fun a ha hloose => ?_
    exact habove a ((below_iff_of_parent?_eq fun a _ => hsame a).2 ha)
      ((loose_place hfree).2 (.inl hloose))
  · exact rooted_place_of_not_below h hf hfree hn hbelow fun a ha hloose =>
      habove a ha ((loose_place hfree).2 (.inl hloose))

theorem struct?_enroll (t : SymbolTable) (name : String) (form : Form) (n : String) :
    (t.enroll name form).struct? n =
      if n = name then (t.struct? name).map (·.recordForm form) else t.struct? n :=
  NameMap.get?_modify _ _ _ _

theorem sameTree_enroll (t : SymbolTable) (name : String) (form : Form) :
    t.SameTree (t.enroll name form) := by
  refine ⟨fun n => ?_, rfl⟩
  rw [struct?_enroll]
  split
  · next hn =>
    subst hn
    cases form <;> cases t.struct? n <;> rfl
  · rfl

theorem loose_enroll {name : String} :
    (t.enroll name form).Loose n ↔ t.Loose n ∧ ¬ (n = name ∧ form = .structural) := by
  rw [Loose, struct?_enroll, Loose]
  by_cases hn : n = name
  · subst hn
    cases form <;> cases t.struct? n <;> simp [Struct.recordForm]
  · simp [hn]

theorem Forms.placed (hf : t.Forms) (h : t.Hierarchy)
    (hfree : t.structRefusal? token parent form = none)
    (hform : form = .implementation → parent = none)
    (hrooted : (t.place token parent form).Rooted token.lexeme) :
    ((t.place token parent form).enroll token.lexeme form).Forms := by
  have hsame := sameTree_enroll (t.place token parent form) token.lexeme form
  refine ⟨fun p c hc => ?_, fun n hn habove => ?_⟩
  · rw [hsame.orphans_eq] at hc
    rw [loose_enroll]
    rintro ⟨hloose, hnot⟩
    rcases orphan_place_cases h hf hfree hform hc with hfirm | ⟨rfl, hstructural, _⟩
    · exact hfirm hloose
    · exact hnot ⟨rfl, hstructural⟩
  rw [hsame.contains_eq] at hn
  rw [Rooted, Below, hsame.extends_eq]
  rw [Below, hsame.extends_eq] at habove
  by_cases hbelow : (t.place token parent form).Below n token.lexeme
  · exact hbelow.trans hrooted
  · refine rooted_place_of_not_below h hf hfree hn hbelow fun a ha hloose => ?_
    refine habove a ha (loose_enroll.2 ⟨(loose_place hfree).2 (.inl hloose), ?_⟩)
    rintro ⟨rfl, _⟩
    exact hbelow ha

end Placed

/-! ## Registered structs -/

section Placed

variable {token : Token} {parent : Option Token} {form : Form}

/-- A struct after a declaration is new, or what it was apart from its place. -/
theorem exists_struct?_place (hne : ∀ p, parent = some p → p.lexeme ≠ token.lexeme) {s' : Struct}
    (hs' : (t.place token parent form).struct? n = some s') :
    (n = token.lexeme ∧ t.struct? n = none ∧
      s'.detached = (Struct.declare token none).detached) ∨
    ∃ s, t.struct? n = some s ∧ s'.detached = s.detached := by
  have hdetached : ((t.place token parent form).struct? n).map Struct.detached = _ :=
    detached_place hne n
  rw [hs', Option.map_some] at hdetached
  by_cases hnew : n = token.lexeme ∧ t.contains token.lexeme = false
  · rw [if_pos hnew] at hdetached
    have hnone := contains_eq_false_iff_struct?.1 hnew.2
    exact .inl ⟨hnew.1, hnew.1 ▸ hnone, Option.some.inj hdetached⟩
  · rw [if_neg hnew] at hdetached
    obtain ⟨s, hs, heq⟩ := Option.map_eq_some_iff.1 hdetached.symm
    exact .inr ⟨s, hs, heq.symm⟩

/-- A built-in struct keeps its parent. -/
theorem parent?_place_of_builtin (h : t.Hierarchy)
    (hfree : t.structRefusal? token parent form = none) (hn : Builtin.structs.contains n = true) :
    (t.place token parent form).parent? n = t.parent? n := by
  obtain ⟨hreserved, _, hparents⟩ := structRefusal?_eq_none_iff.1 hfree
  rw [parent?_place (fun p hp => (hparents p hp).2) fun c hc => h.contains_orphan hc, if_neg,
    if_neg]
  · rintro ⟨rfl, _⟩
    rw [Builtin.contains_eq_false_of_not_reserved hreserved] at hn
    cases hn
  · intro hmem
    rw [(h.orphan _ _ hmem).2] at hn
    cases hn

theorem Registry.place (hr : t.Registry) (h : t.Hierarchy)
    (hplaced : (t.place token parent form).Hierarchy)
    (hfree : t.structRefusal? token parent form = none) :
    (t.place token parent form).Registry := by
  have hne := fun p hp => ((structRefusal?_eq_none_iff.1 hfree).2.2 p hp).2
  -- a built-in struct may only get other children
  have hbuiltin : ∀ n b, Builtin.structs.contains n = true → t.struct? n = some b →
      ∃ children, (t.place token parent form).struct? n = some { b with children } := by
    intro n b hn hb
    have hcontains : (t.place token parent form).contains n = true := by
      rw [contains_place hne, contains_iff_struct?.2 ⟨b, hb⟩, Bool.or_true]
    obtain ⟨s', hs'⟩ := contains_iff_struct?.1 hcontains
    rcases exists_struct?_place hne hs' with ⟨_, hnone, _⟩ | ⟨s, hs, hdetached⟩
    · rw [hb] at hnone
      cases hnone
    · rw [hb] at hs
      cases hs
      have hparent := parent?_place_of_builtin h hfree hn
      rw [parent?_of_struct? hs', parent?_of_struct? hb] at hparent
      obtain ⟨p, children, rfl⟩ := Struct.detached_eq_iff.1 hdetached
      cases hparent
      exact ⟨children, hs'⟩
  refine ⟨?_, fun n b hn hb => ?_, fun n s' hn hs' => ?_⟩
  · obtain ⟨children, hroot⟩ := hr.root
    obtain ⟨children', hroot'⟩ := hbuiltin _ _ rfl hroot
    exact ⟨children', hroot'⟩
  · have hcontains : Builtin.structs.contains n = true := NameMap.contains_iff.2 ⟨b, hb⟩
    obtain ⟨children, hchildren⟩ := hbuiltin n b hcontains (hr.builtin n b hn hb)
    have hempty := NameMap.isEmpty_iff.1 (Builtin.underRoot_of_get? hb hn).2.2.2.2
    have hsame : children = b.children := by
      refine NameSet.ext_contains fun d => ?_
      rw [show b.children.contains d = false by rw [NameMap.contains, hempty]; rfl]
      refine Bool.eq_false_iff.2 fun hd => ?_
      have hextends := (hplaced.faithful n _ d hchildren).1 hd
      have hroot : d ≠ Builtin.root := by
        rintro rfl
        rw [Extends, parent?_place_of_builtin h hfree rfl, hr.parent?_root] at hextends
        cases hextends
      obtain ⟨p, hp, hopen⟩ := hplaced.parent d hextends.contains hroot
      rw [← hextends.parent_unique hp] at hopen
      rcases hopen with hopen | ⟨hopen, _⟩
      · exact hn hopen
      · rw [hcontains] at hopen
        cases hopen
    rw [hchildren, hsame]
  · rcases exists_struct?_place hne hs' with ⟨rfl, _, hdetached⟩ | ⟨s, hs, hdetached⟩
    · obtain ⟨p, children, rfl⟩ := Struct.detached_eq_iff.1 hdetached
      exact ⟨rfl, rfl, rfl, rfl⟩
    · obtain ⟨p, children, rfl⟩ := Struct.detached_eq_iff.1 hdetached
      exact hr.user n s hn hs

theorem Contents.place (hc : t.Contents) (hfree : t.structRefusal? token parent form = none) :
    (t.place token parent form).Contents := by
  have hne := fun p hp => ((structRefusal?_eq_none_iff.1 hfree).2.2 p hp).2
  refine ⟨fun n s' hn hs' => ?_, fun n hn => ?_⟩
  · rcases exists_struct?_place hne hs' with ⟨_, _, hdetached⟩ | ⟨s, hs, hdetached⟩
    · exact ⟨_, _, (Struct.ownMembers_declare token none).of_detached hdetached⟩
    · obtain ⟨ms, as, hown⟩ := hc.own n s hn hs
      exact ⟨ms, as, hown.of_detached hdetached⟩
  · rw [place_eq hne] at hn
    obtain ⟨huser, hcontains⟩ := hc.scope n hn
    exact ⟨huser, by simp [contains_place hne, hcontains]⟩

/-- A declared struct is refused for a cycle unless its ancestors lead to the root. -/
theorem Sound.isCyclic_place_eq_false_iff (h : t.Sound)
    (hfree : t.structRefusal? token parent form = none)
    (hform : form = .implementation → parent = none) :
    (t.place token parent form).isCyclic token.lexeme = false ↔
      (t.place token parent form).Rooted token.lexeme := by
  have hplaced := h.hierarchy.place h.forms h.registry hfree hform
  obtain ⟨hreserved, _, hparents⟩ := structRefusal?_eq_none_iff.1 hfree
  have hcontains : (t.place token parent form).contains token.lexeme = true := by
    rw [contains_place fun p hp => (hparents p hp).2]
    simp
  have hname : token.lexeme ≠ Builtin.root := by
    intro heq
    rw [heq] at hreserved
    cases hreserved
  rw [Bool.eq_false_iff, Ne, hplaced.isCyclic_iff (h.registry.place h.hierarchy hplaced hfree)
    hcontains hname, not_not]

/-- On a sound table a cycle is found above what is not a subtype of the root. -/
theorem Sound.isCyclic_eq_not_isSubtype (h : t.Sound) (hn : t.contains n = true) :
    t.isCyclic n = !t.isSubtype n Builtin.root := by
  rw [Bool.eq_iff_iff, Bool.not_eq_true', Bool.eq_false_iff, Ne, isSubtype_iff_below]
  by_cases hroot : n = Builtin.root
  · have hstops : t.isCyclic Builtin.root = false := by
      rw [isCyclic, h.registry.parent?_root]
      cases t.structs.size <;> rfl
    rw [hroot, hstops]
    exact iff_of_false Bool.false_ne_true fun hnot => hnot .refl
  · exact h.hierarchy.isCyclic_iff h.registry hn hroot

end Placed

/-! ## Steps -/

namespace Step

/-- A step that leaves the structs as they are keeps all invariants, if the scope that it leaves is
open. -/
theorem sound_of_structs_eq (h : t.Sound) (hstructs : t'.structs = t.structs)
    (hpending : t'.pendingParents = t.pendingParents)
    (hscope : ∀ m, t'.scope.struct? = some m → t.scope.struct? = some m) : t'.Sound := by
  have hstruct : ∀ n, t'.struct? n = t.struct? n := fun n => by rw [struct?, struct?, hstructs]
  have hsame : t.SameTree t' := ⟨fun n => by rw [hstruct], hpending⟩
  refine ⟨⟨?_, ?_, ?_⟩, hsame.hierarchy h.hierarchy, hsame.forms (fun n => ?_) h.forms, ?_, ?_⟩
  · rw [hstruct]
    exact h.registry.root
  · simp only [hstruct]
    exact h.registry.builtin
  · simp only [hstruct]
    exact h.registry.user
  · rw [Loose, Loose, hstruct]
  · simp only [hstruct]
    exact h.contents.own
  · intro m hm
    rw [hsame.contains_eq]
    exact h.contents.scope m (hscope m hm)

/-- A change of the members of one struct keeps all invariants. -/
theorem sound_of_updates {s s' : Struct} (h : t.Sound) (hupdates : t.Updates n s s' t')
    (hpending : t'.pendingParents = t.pendingParents) (hmembers : s.MembersChange s')
    (hown : ∀ ms as, s.OwnMembers ms as → ∃ ms as, s'.OwnMembers ms as)
    (hscope : ∀ m, t'.scope.struct? = some m → m = n ∨ t.scope.struct? = some m) : t'.Sound := by
  obtain ⟨methods, attributes, constructor, i, j, rfl⟩ := hmembers
  have hsame : t.SameTree t' := hupdates.sameTree hpending rfl rfl
  exact ⟨hupdates.registry h.registry ⟨rfl, rfl, rfl, rfl⟩, hsame.hierarchy h.hierarchy,
    hsame.forms (hupdates.loose_iff rfl) h.forms, hupdates.contents h.contents hown hscope⟩

/-- A struct that takes a place under the root keeps all invariants, with its form recorded. -/
theorem sound_enroll {token : Token} {parent : Option Token} {form : Form} (h : t.Sound)
    (hfree : t.structRefusal? token parent form = none)
    (hform : form = .implementation → parent = none)
    (hrooted : (t.place token parent form).Rooted token.lexeme) :
    ((t.place token parent form).enroll token.lexeme form).Sound := by
  have hplaced := h.hierarchy.place h.forms h.registry hfree hform
  have hregistry := h.registry.place h.hierarchy hplaced hfree
  have hcontents := h.contents.place hfree
  obtain ⟨hreserved, _, hparents⟩ := structRefusal?_eq_none_iff.1 hfree
  have huser := Builtin.contains_eq_false_of_not_reserved hreserved
  have hcontains : (t.place token parent form).contains token.lexeme = true := by
    rw [contains_place fun p hp => (hparents p hp).2]
    simp
  obtain ⟨s, hs⟩ := contains_iff_struct?.1 hcontains
  have hupdates : (t.place token parent form).Updates token.lexeme s (s.recordForm form)
      ((t.place token parent form).enroll token.lexeme form) :=
    .of_modify huser hs (f := (·.recordForm form)) rfl
  refine ⟨hupdates.registry hregistry ?_, (sameTree_enroll _ _ _).hierarchy hplaced,
    h.forms.placed h.hierarchy hfree hform hrooted, hupdates.contents hcontents ?_ ?_⟩
  · cases form <;> exact ⟨rfl, rfl, rfl, rfl⟩
  · intro ms as hown
    exact ⟨ms, as, hown.recordForm form⟩
  · rintro m hm
    cases hm
    exact .inl rfl

/-- The open method may take any parameters and local variables. -/
theorem sound_setOpenMethod {m : Method} (h : t.Sound) (hopen : t.openMethod? = some m)
    (params locals : List Binding) : (t.setOpenMethod { m with params, locals }).Sound := by
  rw [openMethod?] at hopen
  rw [setOpenMethod]
  cases hscope : t.scope with
  | closed | struct owner =>
    rw [hscope] at hopen
    cases hopen
  | start => exact sound_of_structs_eq h rfl rfl fun m hm => by cases hm
  | constructor owner =>
    rw [hscope] at hopen
    obtain ⟨s, hs, hm⟩ := Option.bind_eq_some_iff.1 hopen
    obtain ⟨huser, _⟩ := h.contents.scope owner (by rw [hscope]; rfl)
    have hset := NameMap.modify_eq_insert hs fun s =>
      { s with constructor := some { m with params, locals } }
    refine sound_of_updates (s := s) h (.of_insert huser hs hset) rfl ⟨_, _, _, _, _, rfl⟩ ?_
      fun m hm => by cases hm; exact .inl rfl
    intro ms as hown
    exact ⟨ms, as, hown.setConstructor (hown.constructor m hm)⟩
  | method owner name =>
    rw [hscope] at hopen
    obtain ⟨s, hs, hm⟩ := Option.bind_eq_some_iff.1 hopen
    obtain ⟨huser, _⟩ := h.contents.scope owner (by rw [hscope]; rfl)
    have hset := NameMap.modify_eq_insert hs fun s =>
      { s with methods := s.methods.insert name { m with params, locals } }
    refine sound_of_updates (s := s) h (.of_insert huser hs hset) rfl ⟨_, _, _, _, _, rfl⟩ ?_
      fun m hm => by cases hm; exact .inl rfl
    intro ms as hown
    exact ⟨_, _, hown.setMethod _ _ hm⟩

/-- Every invariant is kept by every step. -/
theorem sound (hstep : Step t t') (h : t.Sound) : t'.Sound := by
  cases hstep with
  | note token =>
    exact sound_of_structs_eq h (structs_noteType t token) (pendingParents_noteType t token)
      fun m hm => scope_noteType t token ▸ hm
  | placed hfree hform hstraight =>
    exact sound_enroll h hfree hform ((h.isCyclic_place_eq_false_iff hfree hform).1 hstraight)
  | @misplaced token parent form hfree hform hcycle =>
    have hplaced := h.hierarchy.place h.forms h.registry hfree hform
    have hloop : ¬ (t.place token parent form).Rooted token.lexeme := by
      rw [← h.isCyclic_place_eq_false_iff hfree hform, hcycle]
      exact Bool.noConfusion
    exact ⟨h.registry.place h.hierarchy hplaced hfree, hplaced,
      h.forms.misplaced h.hierarchy hfree hform hloop, h.contents.place hfree⟩
  | started token hnew => exact sound_of_structs_eq h rfl rfl fun m hm => by cases hm
  | @addedMethod owner s s' token kind ty hkind hscope hs hadd hty =>
    obtain ⟨huser, _⟩ := h.contents.scope owner hscope
    refine sound_of_updates h (show t.Updates owner s s' _ from .of_insert huser hs rfl) rfl
      (Struct.membersChange_addMethod hadd) (fun ms as hown => ⟨_, _, hown.addMethod hkind hadd⟩) ?_
    intro m hm
    rw [methodScope] at hm
    split at hm <;> cases hm <;> exact .inl rfl
  | @addedAttribute owner s s' token ty isPrivate hscope hs hadd hty =>
    obtain ⟨huser, _⟩ := h.contents.scope owner (by rw [hscope]; rfl)
    exact sound_of_updates h (show t.Updates owner s s' _ from .of_insert huser hs rfl) rfl
      (Struct.membersChange_addAttribute hadd) (fun ms as hown => ⟨_, _, hown.addAttribute hadd⟩)
      fun m hm => .inr hm
  | addedBinding hopen hadd =>
    obtain ⟨params, locals, rfl⟩ := Method.extends_of_add hadd
    exact sound_setOpenMethod h hopen params locals
  | @lost owner scope hscope hnone =>
    obtain ⟨_, hcontains⟩ := h.contents.scope owner hscope
    rw [contains_eq_false_iff_struct?.2 hnone] at hcontains
    cases hcontains
  | close => exact sound_of_structs_eq h rfl rfl fun m hm => by cases hm

end Step

theorem Sound.reaches (h : t.Sound) (hsteps : Relation.ReflTransGen Step t t') : t'.Sound := by
  induction hsteps with
  | refl => exact h
  | tail _ hstep ih => exact hstep.sound ih

end SymbolTable

end StructLang
