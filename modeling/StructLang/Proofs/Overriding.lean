import StructLang.Proofs.Consolidation

/-!
# Overriding

The merge compares a struct with its parent only, whose members include those of all ancestors.
Here the parent is traded for the ancestors: a table can be merged exactly when the members that
every struct declares fit those that each of its ancestors declares (`mergeable_iff`).

* `Merged.attribute_origin`, like `Merged.method_origin`, leads from a merged member to the ancestor
  that declares it.
* `Merged.attribute_visible` and `Merged.method_visible` lead the other way.  An overriding method
  stands for the one that it overrides: it has the same signature and return type, and a static
  method is never overridden.
-/

namespace StructLang

/-- When a method may override another one. -/
theorem Struct.overrideFault?_eq_none_iff {own ancestor : Method} :
    overrideFault? own ancestor = none ↔ ancestor.isStatic = false ∧
      own.signature = ancestor.signature ∧ own.returnType = ancestor.returnType := by
  rw [overrideFault?]
  cases ancestor.isStatic with
  | true => simp
  | false =>
    by_cases hsignature : own.signature = ancestor.signature
    · by_cases hreturn : own.returnType = ancestor.returnType <;> simp [hsignature, hreturn]
    · simp [hsignature]

namespace SymbolTable

variable {t : SymbolTable} {a n p : String} {s s' sp : Struct}

/-- Every attribute of a merged struct has been declared by the struct or an ancestor, and only its
slot and its mark may have changed. -/
theorem Merged.attribute_origin (h : t.Sound) (hrooted : ∀ n, t.contains n = true → t.Rooted n)
    (hmerged : t.Merged n s') (hn : n = Builtin.root ∨ Builtin.structs.contains n = false) :
    ∀ x ∈ s'.attributesBySlot, ∃ a sa b, t.Below n a ∧ t.struct? a = some sa ∧
      b ∈ sa.attributesBySlot ∧ ∃ slot inherited, x = { b with slot, inherited } := by
  refine Merged.induct h hrooted ?root ?user hmerged hn
  case root =>
    intro s hs hlaid x hx
    rw [hlaid.attributesBySlot_eq] at hx
    cases hx
  case user =>
    intro n p s sp s' hn hs hextends ih hfits hlaid x hx
    rw [hlaid.attributesBySlot_eq] at hx
    obtain ⟨b, slot, ⟨hb, rfl⟩ | ⟨hb, rfl⟩⟩ := Attr.exists_of_mem_layout hx
    · obtain ⟨a, sa, b₀, hbelow, hsa, hb₀, slot', mark, rfl⟩ := ih b hb
      exact ⟨a, sa, b₀, .head hextends hbelow, hsa, hb₀, slot, true, rfl⟩
    · exact ⟨n, s, b, .refl, hs, hb, slot, b.inherited, rfl⟩

/-- An ancestor of a struct is the struct itself or an ancestor of its parent. -/
theorem below_cases (hextends : t.Extends n p) (hbelow : t.Below n a) : a = n ∨ t.Below p a := by
  rcases Relation.ReflTransGen.cases_head hbelow with rfl | ⟨q, hq, hrest⟩
  · exact .inl rfl
  · exact .inr (hextends.parent_unique hq ▸ hrest)

theorem eq_root_of_below (hr : t.Registry) (hbelow : t.Below Builtin.root a) :
    a = Builtin.root := by
  rcases Relation.ReflTransGen.cases_head hbelow with rfl | ⟨q, hq, _⟩
  · rfl
  · exact absurd rfl (hr.ne_root hq)

/-- The attributes of a struct and of its ancestors are found in the merged struct. -/
theorem Merged.attribute_visible (h : t.Sound) (hrooted : ∀ n, t.contains n = true → t.Rooted n)
    (hmerged : t.Merged n s') (hn : n = Builtin.root ∨ Builtin.structs.contains n = false) :
    ∀ a sa, t.Below n a → t.struct? a = some sa → ∀ b ∈ sa.attributesBySlot,
      ∃ slot inherited, { b with slot, inherited } ∈ s'.attributesBySlot := by
  refine Merged.induct h hrooted ?root ?user hmerged hn
  case root =>
    intro s hs hlaid a sa hbelow hsa b hb
    rw [eq_root_of_below h.registry hbelow, hs] at hsa
    cases hsa
    exact ⟨b.slot, b.inherited, hb⟩
  case user =>
    intro n p s sp s' hn hs hextends ih hfits hlaid a sa hbelow hsa b hb
    rw [hlaid.attributesBySlot_eq]
    rcases below_cases hextends hbelow with rfl | hbelow
    · rw [hs] at hsa
      cases hsa
      obtain ⟨slot, hslot⟩ := Attr.exists_mem_layout_of_own hb
      exact ⟨slot, b.inherited, hslot⟩
    · obtain ⟨slot, mark, hmem⟩ := ih a sa hbelow hsa b hb
      obtain ⟨slot', hslot'⟩ := Attr.exists_mem_layout_of_inherited hmem
      exact ⟨slot', true, hslot'⟩

/-- The merged struct has, for every method of the struct and of its ancestors, one that stands for
it. -/
theorem Merged.method_visible (h : t.Sound) (hrooted : ∀ n, t.contains n = true → t.Rooted n)
    (hmerged : t.Merged n s') (hn : n = Builtin.root ∨ Builtin.structs.contains n = false) :
    ∀ a sa, t.Below n a → t.struct? a = some sa → ∀ b ∈ sa.methodsBySlot,
      ∃ m ∈ s'.methodsBySlot, m.name = b.name ∧ m.signature = b.signature ∧
        m.returnType = b.returnType ∧ (m.isStatic = false → b.isStatic = false) := by
  refine Merged.induct h hrooted ?root ?user hmerged hn
  case root =>
    intro s hs hlaid a sa hbelow hsa b hb
    rw [eq_root_of_below h.registry hbelow, hs] at hsa
    cases hsa
    exact ⟨b, hb, rfl, rfl, rfl, id⟩
  case user =>
    intro n p s sp s' hn hs hextends ih hfits hlaid a sa hbelow hsa b hb
    obtain ⟨ms, as, hown⟩ := h.contents.own n s hn hs
    have hnodup : (s.methodsBySlot.map Method.name).Nodup :=
      hown.laid.methodsBySlot_eq ▸ hown.laid.methods.nodup
    rw [hlaid.methodsBySlot_eq]
    rcases below_cases hextends hbelow with rfl | hbelow
    · rw [hs] at hsa
      cases hsa
      obtain ⟨slot, hslot⟩ := Method.exists_mem_layout_of_own hnodup hb
      exact ⟨_, hslot, rfl, rfl, rfl, id⟩
    · obtain ⟨m, hm, hname, hsignature, hreturn, hstatic⟩ := ih a sa hbelow hsa b hb
      obtain ⟨c, slot, hslot, rfl | ⟨hc, hcname⟩⟩ := Method.exists_mem_layout_of_inherited hm
      · exact ⟨_, hslot, hname, hsignature, hreturn, hstatic⟩
      · -- the method is overridden, so it is not static and agrees with the one that does it
        obtain ⟨hplain, hsignature', hreturn'⟩ :=
          Struct.overrideFault?_eq_none_iff.1 (hfits.overrides m hm c hc hcname)
        exact ⟨_, hslot, hcname.trans hname, hsignature'.trans hsignature, hreturn'.trans hreturn,
          fun _ => hstatic hplain⟩

/-- The members of a struct of the table fit those of a proper ancestor. -/
def FitsAncestors (t : SymbolTable) (n : String) (s : Struct) : Prop :=
  ∀ a sa, Relation.TransGen t.Extends n a → t.struct? a = some sa →
    Struct.Fits sa.methodsBySlot s.methodsBySlot sa.attributesBySlot s.attributesBySlot

/-- Members fit those of a merged parent exactly when they fit those of all ancestors. -/
theorem Merged.fits_iff (h : t.Sound) (hrooted : ∀ n, t.contains n = true → t.Rooted n)
    (hextends : t.Extends n p) (hparent : t.Merged p sp) :
    Struct.Fits sp.methodsBySlot s.methodsBySlot sp.attributesBySlot s.attributesBySlot ↔
      t.FitsAncestors n s := by
  have hopen := (h.hierarchy.open_of_extends h.registry hextends).imp_right And.left
  constructor
  · intro hfits a sa habove hsa
    have hbelow := (transGen_iff hextends).1 habove
    refine ⟨fun b hb m hm hname => ?_, fun b hb x hx => ?_⟩
    · obtain ⟨c, hc, hcname, hsignature, hreturn, hstatic⟩ :=
        hparent.method_visible h hrooted hopen a sa hbelow hsa b hb
      obtain ⟨hplain, hsignature', hreturn'⟩ := Struct.overrideFault?_eq_none_iff.1
        (hfits.overrides c hc m hm (hname.trans hcname.symm))
      exact Struct.overrideFault?_eq_none_iff.2
        ⟨hstatic hplain, hsignature'.trans hsignature, hreturn'.trans hreturn⟩
    · obtain ⟨_, _, hmem⟩ := hparent.attribute_visible h hrooted hopen a sa hbelow hsa b hb
      exact hfits.attributes _ hmem x hx
  · intro hfits
    refine ⟨fun b hb m hm hname => ?_, fun b hb x hx => ?_⟩
    · obtain ⟨a, sa, c, hbelow, _, hsa, hc, slot, rfl⟩ :=
        hparent.method_origin h hrooted hopen b hb
      exact (hfits a sa ((transGen_iff hextends).2 hbelow) hsa).overrides c hc m hm hname
    · obtain ⟨a, sa, c, hbelow, hsa, hc, _, _, rfl⟩ :=
        hparent.attribute_origin h hrooted hopen b hb
      exact (hfits a sa ((transGen_iff hextends).2 hbelow) hsa).attributes c hc x hx

/-- A table can be merged exactly when the members that every struct declares fit those that each of
its ancestors declares. -/
theorem mergeable_iff (h : t.Sound) (hrooted : ∀ n, t.contains n = true → t.Rooted n) :
    (∀ n, t.contains n = true → ∃ s, t.Merged n s) ↔
      ∀ n s, Builtin.structs.contains n = false → t.struct? n = some s → t.FitsAncestors n s := by
  constructor
  · intro hall n s hn hs
    obtain ⟨s', hmerged⟩ := hall n (contains_iff_struct?.2 ⟨s, hs⟩)
    obtain ⟨p, sp, hp, hparent, hfits, _⟩ := (merged_iff_of_user h hrooted hn hs).1 hmerged
    exact (hparent.fits_iff h hrooted ((parent?_of_struct? hs).trans hp)).1 hfits
  · intro hfits n hn
    induction hrooted n hn using Relation.ReflTransGen.head_induction_on with
    | refl =>
      obtain ⟨s, hs⟩ := contains_iff_struct?.1 hn
      exact ⟨s, .builtin rfl hs⟩
    | @head n p hextends _ ih =>
      obtain ⟨s, hs⟩ := contains_iff_struct?.1 hn
      cases hbuiltin : Builtin.structs.contains n with
      | true => exact ⟨s, .builtin hbuiltin hs⟩
      | false =>
        have hp : s.parent = some p := (parent?_of_struct? hs).symm.trans hextends
        obtain ⟨sp, hparent⟩ := ih (h.hierarchy.contains_parent h.registry hextends)
        obtain ⟨sp₀, hsp₀⟩ := hparent.exists_struct?
        have hopen := (h.hierarchy.open_of_extends h.registry hextends).imp_right And.left
        have hparentFrom := hparent.mergedFrom h hrooted hopen hsp₀
        obtain ⟨ms, as, hown⟩ := h.contents.own n s hbuiltin hs
        have hlists := (hparent.fits_iff h hrooted hextends).2 (hfits n s hbuiltin hs)
        rw [hown.laid.methodsBySlot_eq, hown.laid.attributesBySlot_eq] at hlists
        obtain ⟨s', hmerge⟩ := Struct.exists_inheritFrom hparentFrom.laid hown.laid
          (fun m hm => (hown.methods m hm).1) (fun a ha => (hown.attributes a ha).2) hlists
        exact ⟨s', .user hbuiltin hs hp hparent hmerge⟩

end SymbolTable

end StructLang
