import StructLang.Proofs.Place

/-!
# What holds of every table

The invariants of the tables that declarations make, successful or not, before the members are
merged.  They come in four groups.

* `Registry`: the built-in structs are what they were, the children of the root apart, and every
  other struct is registered under its own name and has not been merged.
* `Hierarchy`: parents and children agree, every struct but the root has a parent that may be one,
  and a struct that waits stands under the root.
* `Forms`: a struct that waits has its struct item, and every cycle passes through a struct without
  one (`grounded`).  A declaration that closes a cycle fails, but it leaves the cycle behind, so
  this is what makes a complete table a tree.
* `Contents`: the members of a struct are its own, numbered in the order of their declaration, and
  only declared structs are open.
-/

namespace StructLang

/-! ## Built-in structs -/

namespace Builtin

theorem get?_root : structs.get? root = some rootStruct := rfl

theorem entries_underRoot : ∀ e ∈ structs.entries, e.1 ≠ root →
    e.2.parent = some root ∧ e.2.builtin = true ∧ e.2.consolidated = true ∧ e.2.name = e.1 ∧
      e.2.children.isEmpty = true := by
  decide

theorem names_children_rootStruct :
    rootStruct.children.names = structs.names.filter (· != root) := by
  decide

theorem names_reserved : ∀ n ∈ structs.names, isReserved n = true := by decide

variable {n : String} {b : Struct}

theorem isReserved_of_contains (h : structs.contains n = true) : isReserved n = true :=
  names_reserved n (NameMap.mem_names_iff.2 h)

theorem contains_eq_false_of_not_reserved (h : isReserved n = false) :
    structs.contains n = false := by
  by_contra hne
  rw [isReserved_of_contains (Bool.of_not_eq_false hne)] at h
  cases h

theorem underRoot_of_get? (h : structs.get? n = some b) (hn : n ≠ root) :
    b.parent = some root ∧ b.builtin = true ∧ b.consolidated = true ∧ b.name = n ∧
      b.children.isEmpty = true :=
  entries_underRoot (n, b) ((NameMap.mem_entries_iff _ _ _).2 h) hn

end Builtin

namespace SymbolTable

variable {t t' : SymbolTable} {c n p : String}

/-! ## The invariants -/

/-- The built-in structs are in place, and the others are what declarations make. -/
structure Registry (t : SymbolTable) : Prop where
  root : ∃ children, t.struct? Builtin.root = some { Builtin.rootStruct with children }
  builtin : ∀ n b, n ≠ Builtin.root → Builtin.structs.get? n = some b → t.struct? n = some b
  user : ∀ n s, Builtin.structs.contains n = false → t.struct? n = some s →
    s.name = n ∧ s.builtin = false ∧ s.consolidated = false ∧ s.instantiated = false

/-- The tree of structs, as far as it is one, and the structs that wait. -/
structure Hierarchy (t : SymbolTable) : Prop where
  faithful : t.Faithful
  parent : ∀ c, t.contains c = true → c ≠ Builtin.root → ∃ p, t.Extends c p ∧
    (p = Builtin.root ∨ Builtin.structs.contains p = false ∧ t.contains p = true)
  awaited : ∀ p ws, t.pendingParents.get? p = some ws → ws ≠ [] ∧ t.contains p = false
  orphan : ∀ p c, c ∈ t.orphans p →
    t.Extends c Builtin.root ∧ Builtin.structs.contains c = false
  orphan_once : ∀ p q c, c ∈ t.orphans p → c ∈ t.orphans q → p = q

/-- A struct that a program declares and whose struct item has not been accepted. -/
def Loose (t : SymbolTable) (n : String) : Prop :=
  Builtin.structs.contains n = false ∧ (t.struct? n).map (·.structural) = some false

/-- What follows from the struct items that have been accepted. -/
structure Forms (t : SymbolTable) : Prop where
  orphan : ∀ p c, c ∈ t.orphans p → ¬ t.Loose c
  grounded : ∀ n, t.contains n = true → (∀ a, t.Below n a → ¬ t.Loose a) → t.Rooted n

/-- The members of the declared structs, and what is open. -/
structure Contents (t : SymbolTable) : Prop where
  own : ∀ n s, Builtin.structs.contains n = false → t.struct? n = some s →
    ∃ ms as, s.OwnMembers ms as
  scope : ∀ n, t.scope.struct? = some n →
    Builtin.structs.contains n = false ∧ t.contains n = true

/-- What holds of every table that declarations make. -/
structure Sound (t : SymbolTable) : Prop where
  registry : t.Registry
  hierarchy : t.Hierarchy
  forms : t.Forms
  contents : t.Contents

namespace Registry

theorem contains_root (h : t.Registry) : t.contains Builtin.root = true := by
  obtain ⟨children, hroot⟩ := h.root
  exact contains_iff_struct?.2 ⟨_, hroot⟩

theorem parent?_root (h : t.Registry) : t.parent? Builtin.root = none := by
  obtain ⟨children, hroot⟩ := h.root
  rw [parent?_of_struct? hroot]
  rfl

theorem ne_root (h : t.Registry) (hextends : t.Extends c p) : c ≠ Builtin.root := by
  rintro rfl
  rw [Extends, h.parent?_root] at hextends
  cases hextends

theorem name_eq (h : t.Registry) {s : Struct} (hs : t.struct? n = some s) : s.name = n := by
  by_cases hroot : n = Builtin.root
  · obtain ⟨children, hr⟩ := h.root
    rw [hroot, hr] at hs
    cases hs
    exact hroot.symm
  · cases hget : Builtin.structs.get? n with
    | none => exact (h.user n s (NameMap.contains_eq_false_iff.2 hget) hs).1
    | some b =>
      rw [h.builtin n b hroot hget] at hs
      cases hs
      exact (Builtin.underRoot_of_get? hget hroot).2.2.2.1

/-- The mark of built-in structs tells them. -/
theorem builtin_eq (h : t.Registry) {s : Struct} (hs : t.struct? n = some s) :
    s.builtin = Builtin.structs.contains n := by
  by_cases hroot : n = Builtin.root
  · obtain ⟨children, hr⟩ := h.root
    rw [hroot, hr] at hs
    cases hs
    rw [hroot]
    rfl
  · cases hget : Builtin.structs.get? n with
    | none =>
      have hcontains := NameMap.contains_eq_false_iff.2 hget
      rw [(h.user n s hcontains hs).2.1, hcontains]
    | some b =>
      rw [h.builtin n b hroot hget] at hs
      cases hs
      rw [(Builtin.underRoot_of_get? hget hroot).2.1, NameMap.contains, hget]
      rfl

end Registry

/-! ## The table before any declaration -/

theorem registry_new : new.Registry where
  root := ⟨_, Builtin.get?_root⟩
  builtin _ _ _ h := h
  user n s hn hs := by
    rw [NameMap.contains_eq_false_iff] at hn
    rw [show new.struct? n = none from hn] at hs
    cases hs

theorem extends_new : new.Extends c p ↔
    p = Builtin.root ∧ c ≠ Builtin.root ∧ Builtin.structs.contains c = true := by
  constructor
  · intro h
    have hne : c ≠ Builtin.root := by
      rintro rfl
      rw [Extends, registry_new.parent?_root] at h
      cases h
    have hc : Builtin.structs.contains c = true := h.contains
    obtain ⟨b, hb⟩ := NameMap.contains_iff.1 hc
    rw [Extends, parent?_of_struct? (t := new) hb, (Builtin.underRoot_of_get? hb hne).1] at h
    cases h
    exact ⟨rfl, hne, hc⟩
  · rintro ⟨rfl, hne, hc⟩
    obtain ⟨b, hb⟩ := NameMap.contains_iff.1 hc
    rw [Extends, parent?_of_struct? (t := new) hb, (Builtin.underRoot_of_get? hb hne).1]

theorem faithful_new : new.Faithful := by
  intro p s c hs
  rw [extends_new]
  by_cases hroot : p = Builtin.root
  · subst hroot
    rw [show new.struct? Builtin.root = some Builtin.rootStruct from Builtin.get?_root] at hs
    cases hs
    rw [← NameMap.mem_names_iff, Builtin.names_children_rootStruct, List.mem_filter,
      NameMap.mem_names_iff]
    simp [and_comm]
  · have hempty := (Builtin.underRoot_of_get? hs hroot).2.2.2.2
    have hnone := NameMap.isEmpty_iff.1 hempty c
    simp [NameMap.contains, hnone, hroot]

theorem orphans_new (p : String) : new.orphans p = [] := rfl

theorem hierarchy_new : new.Hierarchy where
  faithful := faithful_new
  parent c hc hne := ⟨Builtin.root, extends_new.2 ⟨rfl, hne, hc⟩, .inl rfl⟩
  awaited p ws h := by cases h
  orphan p c h := by cases h
  orphan_once p q c h := by cases h

theorem forms_new : new.Forms where
  orphan p c h := by cases h
  grounded n hn _ := by
    by_cases hroot : n = Builtin.root
    · exact hroot ▸ Relation.ReflTransGen.refl
    · exact .single (extends_new.2 ⟨rfl, hroot, hn⟩)

theorem contents_new : new.Contents where
  own n s hn hs := by
    rw [NameMap.contains_eq_false_iff] at hn
    rw [show new.struct? n = none from hn] at hs
    cases hs
  scope n h := by cases h

theorem sound_new : new.Sound := ⟨registry_new, hierarchy_new, forms_new, contents_new⟩

/-! ## Changes that keep the tree -/

/-- The tables have the same tree, with the same structs waiting. -/
structure SameTree (t t' : SymbolTable) : Prop where
  node : ∀ n, (t'.struct? n).map (fun s => (s.parent, s.children)) =
    (t.struct? n).map fun s => (s.parent, s.children)
  pending : t'.pendingParents = t.pendingParents

namespace SameTree

theorem parent?_eq (h : t.SameTree t') (n : String) : t'.parent? n = t.parent? n := by
  have hn := congrArg (Option.bind · Prod.fst) (h.node n)
  simp only [Option.bind_map] at hn
  exact hn

theorem contains_eq (h : t.SameTree t') (n : String) : t'.contains n = t.contains n := by
  have hn := congrArg Option.isSome (h.node n)
  rwa [Option.isSome_map, Option.isSome_map] at hn

theorem extends_eq (h : t.SameTree t') : t'.Extends = t.Extends := by
  funext c p
  rw [Extends, Extends, h.parent?_eq]

theorem orphans_eq (h : t.SameTree t') : t'.orphans = t.orphans := by
  funext p
  rw [orphans, orphans, waitingFor, waitingFor, h.pending]

theorem hierarchy (hsame : t.SameTree t') (h : t.Hierarchy) : t'.Hierarchy := by
  refine ⟨fun p s' c hs' => ?_, fun c hc hne => ?_, fun p ws hws => ?_, fun p c hc => ?_,
    fun p q c hp hq => ?_⟩
  · have hnode := hsame.node p
    rw [hs', Option.map_some] at hnode
    obtain ⟨s, hs, hpair⟩ := Option.map_eq_some_iff.1 hnode.symm
    rw [hsame.extends_eq, ← h.faithful p s c hs, (Prod.mk.inj hpair).2]
  · rw [hsame.contains_eq] at hc
    obtain ⟨p, hp, hopen⟩ := h.parent c hc hne
    refine ⟨p, hsame.extends_eq ▸ hp, ?_⟩
    rwa [hsame.contains_eq]
  · rw [hsame.pending] at hws
    rw [hsame.contains_eq]
    exact h.awaited p ws hws
  · rw [hsame.orphans_eq] at hc
    rw [hsame.extends_eq]
    exact h.orphan p c hc
  · rw [hsame.orphans_eq] at hp hq
    exact h.orphan_once p q c hp hq

/-- The forms do not change either. -/
theorem forms (hsame : t.SameTree t') (hloose : ∀ n, t'.Loose n ↔ t.Loose n) (h : t.Forms) :
    t'.Forms := by
  refine ⟨fun p c hc => ?_, fun n hn habove => ?_⟩
  · rw [hsame.orphans_eq] at hc
    rw [hloose]
    exact h.orphan p c hc
  · rw [hsame.contains_eq] at hn
    rw [Rooted, Below, hsame.extends_eq]
    refine h.grounded n hn fun a ha hl => habove a ?_ ((hloose a).2 hl)
    rwa [Below, hsame.extends_eq]

end SameTree

/-! ## Changes of one struct -/

/-- The table `t'` is `t` with another record for the struct `n`, which a program declares. -/
structure Updates (t : SymbolTable) (n : String) (s s' : Struct) (t' : SymbolTable) : Prop where
  user : Builtin.structs.contains n = false
  before : t.struct? n = some s
  after : ∀ other, t'.struct? other = if other = n then some s' else t.struct? other

namespace Updates

variable {s s' : Struct}

theorem of_insert (huser : Builtin.structs.contains n = false) (hs : t.struct? n = some s)
    (hstructs : t'.structs = t.structs.insert n s') : t.Updates n s s' t' :=
  ⟨huser, hs, fun other => by rw [struct?, hstructs, NameMap.get?_insert]; rfl⟩

theorem of_modify (huser : Builtin.structs.contains n = false) (hs : t.struct? n = some s)
    {f : Struct → Struct} (hstructs : t'.structs = t.structs.modify n f) :
    t.Updates n s (f s) t' :=
  of_insert huser hs (hstructs.trans (NameMap.modify_eq_insert hs f))

theorem registry (h : t.Updates n s s' t') (hr : t.Registry)
    (hkeep : s'.name = s.name ∧ s'.builtin = s.builtin ∧ s'.consolidated = s.consolidated ∧
      s'.instantiated = s.instantiated) : t'.Registry := by
  have hother : ∀ m, Builtin.structs.contains m = true → t'.struct? m = t.struct? m := by
    intro m hm
    rw [h.after, if_neg]
    rintro rfl
    rw [h.user] at hm
    cases hm
  refine ⟨?_, fun m b hm hb => ?_, fun m r hm hmr => ?_⟩
  · rw [hother _ rfl]
    exact hr.root
  · rw [hother m (NameMap.contains_iff.2 ⟨b, hb⟩)]
    exact hr.builtin m b hm hb
  · rw [h.after] at hmr
    by_cases hmn : m = n
    · rw [if_pos hmn] at hmr
      cases hmr
      obtain ⟨hname, hbuiltin, hconsolidated, hinstantiated⟩ := hr.user n s h.user h.before
      rw [hkeep.1, hkeep.2.1, hkeep.2.2.1, hkeep.2.2.2, hmn]
      exact ⟨hname, hbuiltin, hconsolidated, hinstantiated⟩
    · rw [if_neg hmn] at hmr
      exact hr.user m r hm hmr

theorem contains_eq (h : t.Updates n s s' t') (m : String) : t'.contains m = t.contains m := by
  rw [contains, NameMap.contains, ← struct?, h.after, contains, NameMap.contains, ← struct?]
  split
  · next hm => rw [hm, h.before]; rfl
  · rfl

theorem contents (h : t.Updates n s s' t') (hc : t.Contents)
    (hown : ∀ ms as, s.OwnMembers ms as → ∃ ms as, s'.OwnMembers ms as)
    (hscope : ∀ m, t'.scope.struct? = some m → m = n ∨ t.scope.struct? = some m) :
    t'.Contents := by
  refine ⟨fun m r hm hmr => ?_, fun m hm => ?_⟩
  · rw [h.after] at hmr
    by_cases hmn : m = n
    · rw [if_pos hmn] at hmr
      cases hmr
      obtain ⟨ms, as, hs⟩ := hc.own n s h.user h.before
      exact hown ms as hs
    · rw [if_neg hmn] at hmr
      exact hc.own m r hm hmr
  · rw [h.contains_eq]
    rcases hscope m hm with rfl | hold
    · exact ⟨h.user, contains_iff_struct?.2 ⟨s, h.before⟩⟩
    · exact hc.scope m hold

/-- The tree and the forms do not change when the struct keeps its place and its form. -/
theorem sameTree (h : t.Updates n s s' t') (hpending : t'.pendingParents = t.pendingParents)
    (hparent : s'.parent = s.parent) (hchildren : s'.children = s.children) : t.SameTree t' := by
  refine ⟨fun m => ?_, hpending⟩
  rw [h.after]
  split
  · next hm => rw [hm, h.before, Option.map_some, Option.map_some, hparent, hchildren]
  · rfl

theorem loose_iff (h : t.Updates n s s' t') (hstructural : s'.structural = s.structural)
    (m : String) : t'.Loose m ↔ t.Loose m := by
  rw [Loose, Loose, h.after]
  split
  · next hm => rw [hm, h.before, Option.map_some, Option.map_some, hstructural]
  · rfl

end Updates

end SymbolTable

end StructLang
