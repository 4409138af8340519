import StructLang.Proofs.Overriding
import StructLang.Proofs.Represents

/-!
# Well-formed programs

A program is accepted exactly when it is well-formed.  `Program.WellFormed` is a condition on the
program as a whole, with no table and no order: names, parents, members, types, and how the members
of a struct agree with those of all its ancestors.

* `Represents.complete_iff`: when the table of a list of items is complete.
* `Represents.fits_iff`: when the members of all structs of the table fit those of their ancestors.
* `Program.exists_declare_iff`: both together with `Declarable`.
-/

namespace StructLang

open Items SymbolTable

/-- The type that a typed name declares. -/
def VarDef.type (v : VarDef) : Ty := Ty.ofName v.ty.lexeme

/-- Whether a method may stand for a method of an ancestor. -/
def MethodDef.MayOverride (own ancestor : MethodDef) : Prop :=
  ancestor.kind ≠ .static ∧ own.params.map VarDef.type = ancestor.params.map VarDef.type ∧
    own.returns = ancestor.returns

/-- Whether the members of a struct agree with those of an ancestor: no attribute has the same name,
and a method with the same name may override the other one. -/
structure Items.Compatible (items : List Item) (c a : String) : Prop where
  attributes : ∀ d ∈ structDefs items, d.name.lexeme = c → ∀ e ∈ structDefs items,
    e.name.lexeme = a → ∀ x ∈ d.attributes, ∀ y ∈ e.attributes, x.name.lexeme ≠ y.name.lexeme
  methods : ∀ d ∈ implDefs items, d.name.lexeme = c → ∀ e ∈ implDefs items,
    e.name.lexeme = a → ∀ own ∈ d.ordinary, ∀ ancestor ∈ e.ordinary,
      own.name.lexeme = ancestor.name.lexeme → own.MayOverride ancestor

/-- What a program has to satisfy. -/
structure Program.WellFormed (p : Program) : Prop where
  /-- No item has a reserved name, and every name has one struct item and one impl block. -/
  names : ∀ n, Names p.items n → Builtin.isReserved n = false ∧
    ((structDefs p.items).map (·.name.lexeme)).count n = 1 ∧
    ((implDefs p.items).map (·.name.lexeme)).count n = 1
  /-- Every parent is the root or another struct of the program. -/
  parents : ∀ d ∈ structDefs p.items, ∀ q, d.parent = some q → q.lexeme = Builtin.root ∨
    q.lexeme ≠ d.name.lexeme ∧ q.lexeme ∈ (structDefs p.items).map (·.name.lexeme)
  /-- No struct is its own ancestor. -/
  acyclic : ∀ n, ¬ Relation.TransGen (Inherits p.items) n n
  attributes : ∀ d ∈ structDefs p.items, (d.attributes.map (·.name.lexeme)).Nodup
  impls : ∀ d ∈ implDefs p.items, d.constructors.length = 1 ∧
    (∀ m ∈ d.methods, m.kind ≠ .start ∧ m.Distinct) ∧ (d.ordinary.map (·.name.lexeme)).Nodup
  starts : (startDefs p.items).length ≤ 1 ∧
    ∀ d ∈ startDefs p.items, (d.locals.map (·.name.lexeme)).Nodup
  /-- Every type that is a struct is one of the two open built-in structs or one of the program. -/
  types : ∀ n, Mentions p.items n → n = Builtin.root ∨ n = Builtin.inputOutput ∨
    n ∈ (structDefs p.items).map (·.name.lexeme)
  compatible : ∀ c a, Relation.TransGen (Inherits p.items) c a → Compatible p.items c a

/-! ## Built-in types -/

theorem Ty.eq_of_ofName {x n : String} (h : Ty.ofName x = .struct n) : x = n := by
  rw [ofName] at h
  split at h
  · cases h
  · split at h
    · cases h
    · split at h
      · cases h
      · exact Ty.struct.inj h

/-- The built-in structs whose names stand for themselves are the root and that of input and
output. -/
theorem Builtin.eq_of_ofName {n : String} (hn : structs.contains n = true)
    (h : Ty.ofName n = .struct n) : n = root ∨ n = inputOutput := by
  have hall : ∀ n ∈ structs.names, Ty.ofName n = .struct n → n = root ∨ n = inputOutput := by
    decide
  exact hall n (NameMap.mem_names_iff.2 hn) h

/-! ## Complete tables -/

theorem Struct.missingPart?_eq_none_iff {s : Struct} : s.missingPart? = none ↔
    s.structural = true ∧ s.implemented = true ∧ s.constructor.isSome = true := by
  rw [missingPart?]
  cases s.structural <;> cases s.implemented <;> cases s.constructor <;> simp

namespace SymbolTable.Represents

variable {items : List Item} {t : SymbolTable} {n : String} {s : Struct}

/-- Whether a name has both its items, the impl block with a constructor. -/
def HasParts (items : List Item) (n : String) : Prop :=
  (∃ d, structDef? items n = some d) ∧
    ∃ i, implDef? items n = some i ∧ ∃ m ∈ i.methods, m.kind = .constructor

theorem HasParts.mem_structDefs (h : HasParts items n) :
    n ∈ (structDefs items).map (·.name.lexeme) := by
  by_contra hnot
  obtain ⟨⟨d, hd⟩, _⟩ := h
  rw [structDef?_eq_none_iff.2 hnot] at hd
  cases hd

theorem HasParts.mem_implDefs (h : HasParts items n) :
    n ∈ (implDefs items).map (·.name.lexeme) := by
  by_contra hnot
  obtain ⟨_, i, hi, _⟩ := h
  rw [implDef?_eq_none_iff.2 hnot] at hi
  cases hi

theorem missingPart?_eq_none_iff (h : Represents items t)
    (hn : Builtin.structs.contains n = false) (hs : t.struct? n = some s) :
    s.missingPart? = none ↔ HasParts items n := by
  have hrecord := h.record n s hn hs
  have hstructural : s.structural = (structDef? items n).isSome := by
    show s.detached.structural = _
    rw [hrecord, Struct.structural_ofItems]
  have himplemented : s.implemented = (implDef? items n).isSome := by
    show s.detached.implemented = _
    rw [hrecord, Struct.implemented_ofItems]
  have hconstructor : s.constructor.isSome =
      (implDef? items n).any fun i => i.methods.any (·.kind = .constructor) := by
    show s.detached.constructor.isSome = _
    rw [hrecord, Struct.isSome_constructor_ofItems]
  rw [Struct.missingPart?_eq_none_iff, hstructural, himplemented, hconstructor, HasParts]
  cases structDef? items n <;> cases implDef? items n <;> simp

/-- The table of a list of items is complete when every parent and every type is registered and
every name has its parts. -/
theorem complete_iff (h : Represents items t) : t.Complete ↔
    (∀ c q, Items.parent? items c = some q → t.contains q.lexeme = true) ∧
    (∀ n, Mentions items n → t.contains n = true) ∧ ∀ n, Names items n → HasParts items n := by
  constructor
  · rintro ⟨hparents, htypes, hparts⟩
    refine ⟨fun c q hq => ?_, fun n hn => ?_, fun n hn => ?_⟩
    · by_contra hnot
      have horphan : c ∈ t.orphans q.lexeme :=
        (h.arranged.orphans _ _).2 ⟨Bool.eq_false_iff.2 hnot, by rw [hq]; rfl⟩
      rw [orphans, waitingFor, hparents] at horphan
      cases horphan
    · by_contra hnot
      have hpending := (h.types n).2 ⟨Bool.eq_false_iff.2 hnot, hn⟩
      rw [NameMap.contains_iff] at hpending
      obtain ⟨uses, huses⟩ := hpending
      rw [htypes n] at huses
      cases huses
    · have huser := h.arranged.user n hn
      obtain ⟨s, hs⟩ := contains_iff_struct?.1 ((h.arranged.contains n).2 (.inr hn))
      have hbuiltin := (h.sound.registry.builtin_eq hs).trans huser
      exact (h.missingPart?_eq_none_iff huser hs).1 (hparts n s hs hbuiltin)
  · rintro ⟨hparents, htypes, hparts⟩
    refine ⟨fun p => ?_, fun n => ?_, fun n s hs hbuiltin => ?_⟩
    · by_contra hsome
      obtain ⟨ws, hws⟩ := Option.ne_none_iff_exists'.1 hsome
      obtain ⟨w, hw⟩ := List.exists_mem_of_ne_nil ws (h.sound.hierarchy.awaited p ws hws).1
      have horphan : w.child ∈ t.orphans p := by
        rw [orphans, waitingFor, hws]
        exact List.mem_map_of_mem hw
      obtain ⟨hp, hwaits⟩ := (h.arranged.orphans _ _).1 horphan
      obtain ⟨q, hq, rfl⟩ := Option.map_eq_some_iff.1 hwaits
      rw [hparents w.child q hq] at hp
      cases hp
    · by_contra hsome
      obtain ⟨hn, hmentions⟩ := (h.types n).1
        (NameMap.contains_iff.2 (Option.ne_none_iff_exists'.1 hsome))
      rw [htypes n hmentions] at hn
      cases hn
    · have huser := (h.sound.registry.builtin_eq hs).symm.trans hbuiltin
      have hnames := ((h.arranged.contains n).1 (contains_iff_struct?.2 ⟨s, hs⟩)).resolve_left
        (by rw [huser]; exact Bool.false_ne_true)
      exact (h.missingPart?_eq_none_iff huser hs).2 (hparts n hnames)

end SymbolTable.Represents

/-! ## Members and ancestors -/

theorem StructDef.mem_attrs {d : StructDef} {owner : String} {x : Attr} :
    x ∈ d.attrs owner ↔ ∃ i, ∃ a : AttrDef, d.attributes[i]? = some a ∧ x = a.attr owner i := by
  rw [attrs, List.mem_iff_getElem?]
  simp only [List.getElem?_mapIdx, Option.map_eq_some_iff]
  exact exists_congr fun i => exists_congr fun a => and_congr_right fun _ => eq_comm

theorem ImplDef.mem_table {d : ImplDef} {owner : String} {m : Method} :
    m ∈ d.table owner ↔
      ∃ i, ∃ md : MethodDef, d.ordinary[i]? = some md ∧ m = md.method owner i := by
  rw [table, List.mem_iff_getElem?]
  simp only [List.getElem?_mapIdx, Option.map_eq_some_iff]
  exact exists_congr fun i => exists_congr fun a => and_congr_right fun _ => eq_comm

theorem MethodDef.overrideFault?_eq_none_iff {own ancestor : MethodDef}
    (hkind : ancestor.kind ≠ .start) (o a : String) (i j : Nat) :
    Struct.overrideFault? (own.method o i) (ancestor.method a j) = none ↔
      own.MayOverride ancestor := by
  have hstatic : (ancestor.method a j).isStatic = false ↔ ancestor.kind ≠ .static := by
    show ancestor.kind.isStatic = false ↔ _
    cases hk : ancestor.kind <;> simp_all [MethodKind.isStatic]
  have hsignature (d : MethodDef) (o : String) (i : Nat) :
      (d.method o i).signature = d.params.map VarDef.type := List.map_map
  rw [Struct.overrideFault?_eq_none_iff, hstatic, hsignature, hsignature]
  exact Iff.rfl

theorem mem_elim_nil {β γ : Type} {o : Option β} {f : β → List γ} {c : γ} :
    c ∈ o.elim [] f ↔ ∃ b, o = some b ∧ c ∈ f b := by
  cases o <;> simp

/-- When the members of the items of a struct fit those of the items of another one. -/
theorem fits_tables {n a : String} {d? e? : Option StructDef} {i? j? : Option ImplDef}
    (hj : ∀ j, j? = some j → j.Admissible) :
    Struct.Fits (j?.elim [] (ImplDef.table a)) (i?.elim [] (ImplDef.table n))
        (e?.elim [] (StructDef.attrs a)) (d?.elim [] (StructDef.attrs n)) ↔
      (∀ d e, d? = some d → e? = some e → ∀ x ∈ d.attributes, ∀ y ∈ e.attributes,
        x.name.lexeme ≠ y.name.lexeme) ∧
      ∀ i j, i? = some i → j? = some j → ∀ own ∈ i.ordinary, ∀ ancestor ∈ j.ordinary,
        own.name.lexeme = ancestor.name.lexeme → own.MayOverride ancestor := by
  have hkind {j : ImplDef} (hsome : j? = some j) {m : MethodDef} (hm : m ∈ j.ordinary) :
      m.kind ≠ .start := ((hj j hsome).methods m (List.mem_filter.1 hm).1).1
  constructor
  · rintro ⟨hoverrides, hattributes⟩
    refine ⟨?_, ?_⟩
    · rintro d e rfl rfl x hx y hy
      obtain ⟨i, hi⟩ := List.mem_iff_getElem?.1 hx
      obtain ⟨j, hj⟩ := List.mem_iff_getElem?.1 hy
      exact hattributes _ (StructDef.mem_attrs.2 ⟨j, y, hj, rfl⟩) _
        (StructDef.mem_attrs.2 ⟨i, x, hi, rfl⟩)
    · rintro i j rfl rfl own hown ancestor hancestor hname
      obtain ⟨k, hk⟩ := List.mem_iff_getElem?.1 hown
      obtain ⟨l, hl⟩ := List.mem_iff_getElem?.1 hancestor
      exact (MethodDef.overrideFault?_eq_none_iff (hkind rfl hancestor) n a k l).1
        (hoverrides _ (ImplDef.mem_table.2 ⟨l, ancestor, hl, rfl⟩) _
          (ImplDef.mem_table.2 ⟨k, own, hk, rfl⟩) hname)
  · rintro ⟨hattributes, hoverrides⟩
    constructor
    · intro m hm m' hm' hname
      obtain ⟨j, rfl, hm⟩ := mem_elim_nil.1 hm
      obtain ⟨i, rfl, hm'⟩ := mem_elim_nil.1 hm'
      obtain ⟨l, ancestor, hl, rfl⟩ := ImplDef.mem_table.1 hm
      obtain ⟨k, own, hk, rfl⟩ := ImplDef.mem_table.1 hm'
      have hancestor := List.mem_of_getElem? hl
      exact (MethodDef.overrideFault?_eq_none_iff (hkind rfl hancestor) n a k l).2
        (hoverrides i j rfl rfl own (List.mem_of_getElem? hk) ancestor hancestor hname)
    · intro x hx y hy
      obtain ⟨e, rfl, hx⟩ := mem_elim_nil.1 hx
      obtain ⟨d, rfl, hy⟩ := mem_elim_nil.1 hy
      obtain ⟨l, b, hl, rfl⟩ := StructDef.mem_attrs.1 hx
      obtain ⟨k, c, hk, rfl⟩ := StructDef.mem_attrs.1 hy
      exact hattributes d e rfl rfl c (List.mem_of_getElem? hk) b (List.mem_of_getElem? hl)

namespace SymbolTable.Represents

variable {items : List Item} {t : SymbolTable} {n : String} {s : Struct}

/-- The members that a struct of the table declares are those of its items. -/
theorem ownMembers (h : Represents items t) (hitems : Declarable items)
    (hn : Builtin.structs.contains n = false) (hs : t.struct? n = some s) :
    s.OwnMembers ((implDef? items n).elim [] (ImplDef.table n))
      ((structDef? items n).elim [] (StructDef.attrs n)) := by
  have hname : s.token.lexeme = n := h.sound.registry.name_eq hs
  have hmembers := Struct.ownMembers_ofItems s.token
    (fun d (hd : structDef? items n = some d) => hitems.admissible_struct hd)
    (fun i (hi : implDef? items n = some i) => hitems.admissible_impl hi)
  rw [hname] at hmembers
  exact hmembers.of_detached ((h.record n s hn hs).trans (Struct.detached_ofItems _ _ _).symm)

/-- The members of all structs fit those of their ancestors when those of the items do. -/
theorem fits_iff (h : Represents items t) (hitems : Declarable items)
    (hparents : ∀ c q, Items.parent? items c = some q → t.contains q.lexeme = true) :
    (∀ n s, Builtin.structs.contains n = false → t.struct? n = some s → t.FitsAncestors n s) ↔
      ∀ c a, Relation.TransGen (Inherits items) c a → Compatible items c a := by
  have hdef {n : String} {d : StructDef} := structDef?_eq_some_iff (n := n) (d := d)
    hitems.structNames
  have himpl {n : String} {d : ImplDef} := implDef?_eq_some_iff (n := n) (d := d) hitems.implNames
  have hcompatible {c a : String} {sc sa : Struct} (hc : Builtin.structs.contains c = false)
      (hsc : t.struct? c = some sc) (ha : Builtin.structs.contains a = false)
      (hsa : t.struct? a = some sa) :
      Struct.Fits sa.methodsBySlot sc.methodsBySlot sa.attributesBySlot sc.attributesBySlot ↔
        Compatible items c a := by
    have hmc := (h.ownMembers hitems hc hsc).laid
    have hma := (h.ownMembers hitems ha hsa).laid
    rw [hmc.methodsBySlot_eq, hmc.attributesBySlot_eq, hma.methodsBySlot_eq,
      hma.attributesBySlot_eq, fits_tables fun j => hitems.admissible_impl]
    simp only [hdef, himpl]
    exact ⟨fun ⟨hattributes, hmethods⟩ =>
        ⟨fun d hd hdc e he hea => hattributes d e ⟨hd, hdc⟩ ⟨he, hea⟩,
          fun d hd hdc e he hea => hmethods d e ⟨hd, hdc⟩ ⟨he, hea⟩⟩,
      fun hboth => ⟨fun d e hd he => hboth.attributes d hd.1 hd.2 e he.1 he.2,
        fun d e hd he => hboth.methods d hd.1 hd.2 e he.1 he.2⟩⟩
  constructor
  · intro hfits c a hpath
    obtain ⟨_, hfirst, _⟩ := Relation.TransGen.head'_iff.1 hpath
    obtain ⟨b, _, hlast⟩ := Relation.TransGen.tail'_iff.1 hpath
    obtain ⟨q, hq, rfl⟩ := Option.map_eq_some_iff.1 ((inherits_iff hitems.structNames).1 hlast)
    have ha := hparents b q hq
    obtain ⟨sc, hsc⟩ := contains_iff_struct?.1 ((h.arranged.contains c).2 (.inr hfirst.names))
    obtain ⟨sa, hsa⟩ := contains_iff_struct?.1 ha
    have hextends := h.arranged.transGen_extends hitems.structNames hpath ha
    have hc := h.arranged.user c hfirst.names
    cases hbuiltin : Builtin.structs.contains q.lexeme with
    | false => exact (hcompatible hc hsc hbuiltin hsa).1 (hfits c sc hc hsc _ sa hextends hsa)
    | true =>
      -- a built-in ancestor has no items
      have hnot : ¬ Names items q.lexeme := fun hnames => by
        rw [h.arranged.user _ hnames] at hbuiltin
        cases hbuiltin
      exact ⟨fun _ _ _ e he hea => absurd (.inl (List.mem_map.2 ⟨e, he, hea⟩)) hnot,
        fun _ _ _ e he hea => absurd (.inr (List.mem_map.2 ⟨e, he, hea⟩)) hnot⟩
  · intro hall n s hn hs a sa hpath hsa
    by_cases hroot : a = Builtin.root
    · have hlaid := h.sound.registry.laid_root (hroot ▸ hsa)
      rw [hlaid.methodsBySlot_eq, hlaid.attributesBySlot_eq]
      exact ⟨fun m hm => absurd hm List.not_mem_nil, fun b hb => absurd hb List.not_mem_nil⟩
    · obtain ⟨b, _, hlast⟩ := Relation.TransGen.tail'_iff.1 hpath
      have ha := ((h.sound.hierarchy.open_of_extends h.sound.registry hlast).resolve_left hroot).1
      exact (hcompatible hn hs ha hsa).2
        (hall n a (h.arranged.transGen_inherits h.sound.registry hitems.structNames hpath hroot))

end SymbolTable.Represents

/-! ## Acceptance -/

namespace Program

variable {p : Program}

/-- The declarations and the completion of a program succeed when its items are declarable, nothing
that they refer to is missing, and the members of all structs are compatible. -/
theorem exists_declare_iff : (∃ t, p.declare.run new = .ok () t) ↔ Declarable p.items ∧
    (∀ c q, Items.parent? p.items c = some q →
      Builtin.structs.contains q.lexeme = true ∨ Names p.items q.lexeme) ∧
    (∀ n, Mentions p.items n → Builtin.structs.contains n = true ∨ Names p.items n) ∧
    (∀ n, Names p.items n → Represents.HasParts p.items n) ∧
    ∀ c a, Relation.TransGen (Inherits p.items) c a → Compatible p.items c a := by
  constructor
  · rintro ⟨t', hrun⟩
    obtain ⟨⟨⟩, t, hitems, hlast⟩ := run_bind_eq_ok.1 hrun
    have hdeclarable := (exists_run_items p.items).1 ⟨t, hitems⟩
    have h := represents_of_run hitems
    obtain ⟨hcomplete, hall, _⟩ := (consolidate_eq_ok h.sound h.consolidated).1 hlast
    obtain ⟨hparents, htypes, hparts⟩ := h.complete_iff.1 hcomplete
    have hfits := (mergeable_iff h.sound h.rooted).1 hall
    exact ⟨hdeclarable, fun c q hq => (h.arranged.contains _).1 (hparents c q hq),
      fun n hn => (h.arranged.contains n).1 (htypes n hn), hparts,
      (h.fits_iff hdeclarable hparents).1 hfits⟩
  · rintro ⟨hdeclarable, hparents, htypes, hparts, hcompatible⟩
    obtain ⟨t, hitems⟩ := (exists_run_items p.items).2 hdeclarable
    have h := represents_of_run hitems
    have hregistered : ∀ c q, Items.parent? p.items c = some q → t.contains q.lexeme = true :=
      fun c q hq => (h.arranged.contains _).2 (hparents c q hq)
    have hcomplete := h.complete_iff.2
      ⟨hregistered, fun n hn => (h.arranged.contains n).2 (htypes n hn), hparts⟩
    have hall := (mergeable_iff h.sound h.rooted).2
      ((h.fits_iff hdeclarable hregistered).2 hcompatible)
    obtain ⟨t', hlast, _⟩ := exists_consolidate h.sound h.consolidated hcomplete hall
    exact ⟨t', run_bind_eq_ok.2 ⟨(), t, hitems, hlast⟩⟩

theorem WellFormed.structNames (h : p.WellFormed) :
    ((structDefs p.items).map (·.name.lexeme)).Nodup :=
  List.nodup_iff_count_eq_one.2 fun n hn => (h.names n (.inl hn)).2.1

theorem WellFormed.implNames (h : p.WellFormed) :
    ((implDefs p.items).map (·.name.lexeme)).Nodup :=
  List.nodup_iff_count_eq_one.2 fun n hn => (h.names n (.inr hn)).2.2

/-- The items of a well-formed program are declarable. -/
theorem WellFormed.declarable (h : p.WellFormed) : Declarable p.items := by
  refine ⟨fun item hitem => ?_, h.structNames, h.implNames, h.starts.1, h.acyclic⟩
  cases item with
  | struct d =>
    have hd := mem_structDefs.2 hitem
    have hname := (h.names _ (.inl (List.mem_map.2 ⟨d, hd, rfl⟩))).1
    refine ⟨hname, fun q hq => ?_, h.attributes d hd⟩
    rcases h.parents d hd q hq with hroot | ⟨hne, hmem⟩
    · rw [hroot]
      refine ⟨rfl, fun heq => ?_⟩
      rw [← heq] at hname
      cases hname
    · rw [Builtin.isSealed, (h.names _ (.inl hmem)).1, Bool.and_false]
      exact ⟨rfl, hne⟩
  | impl d =>
    have hd := mem_implDefs.2 hitem
    obtain ⟨hconstructors, hmethods, hnames⟩ := h.impls d hd
    exact ⟨(h.names _ (.inr (List.mem_map.2 ⟨d, hd, rfl⟩))).1, hmethods,
      Nat.le_of_eq hconstructors, hnames⟩
  | start d => exact h.starts.2 d (mem_startDefs.2 hitem)

/-- Every name of a well-formed program has its parts. -/
theorem WellFormed.hasParts (h : p.WellFormed) {n : String} (hn : Names p.items n) :
    Represents.HasParts p.items n := by
  obtain ⟨_, hstruct, himpl⟩ := h.names n hn
  have hstruct' : n ∈ (structDefs p.items).map (·.name.lexeme) :=
    List.count_pos_iff.1 (by rw [hstruct]; exact Nat.one_pos)
  have himpl' : n ∈ (implDefs p.items).map (·.name.lexeme) :=
    List.count_pos_iff.1 (by rw [himpl]; exact Nat.one_pos)
  obtain ⟨d, hd, hdn⟩ := List.mem_map.1 hstruct'
  obtain ⟨i, hi, hin⟩ := List.mem_map.1 himpl'
  refine ⟨⟨d, (structDef?_eq_some_iff h.structNames).2 ⟨hd, hdn⟩⟩, i,
    (implDef?_eq_some_iff h.implNames).2 ⟨hi, hin⟩, ?_⟩
  obtain ⟨m, hm⟩ := List.exists_mem_of_length_pos (by rw [(h.impls i hi).1]; exact Nat.one_pos)
  obtain ⟨hmem, hkind⟩ := List.mem_filter.1 hm
  exact ⟨m, hmem, by simpa using hkind⟩

/-- Acceptance is well-formedness: the items of a program can be declared in order and the table
completed exactly when the program is well-formed. -/
theorem declare_succeeds_iff_wellFormed (p : Program) :
    (∃ t, p.declare.run new = .ok () t) ↔ p.WellFormed := by
  rw [exists_declare_iff]
  constructor
  · rintro ⟨h, hparents, htypes, hparts, hcompatible⟩
    have hdef {n : String} (hn : Names p.items n) := (hparts n hn).mem_structDefs
    refine ⟨fun n hn => ⟨?_, ?_, ?_⟩, fun d hd q hq => ?_, h.acyclic, fun d hd => ?_,
      fun d hd => ?_, ⟨h.starts, fun d hd => h.each _ (mem_startDefs.1 hd)⟩, fun n hn => ?_,
      hcompatible⟩
    · obtain ⟨d, hd, rfl⟩ := List.mem_map.1 (hdef hn)
      exact (show d.Admissible from h.each _ (mem_structDefs.1 hd)).name
    · exact List.count_eq_one_of_mem h.structNames (hdef hn)
    · exact List.count_eq_one_of_mem h.implNames (hparts n hn).mem_implDefs
    · have hadmissible : d.Admissible := h.each _ (mem_structDefs.1 hd)
      obtain ⟨hsealed, hne⟩ := hadmissible.parent q hq
      simp only [Builtin.isSealed, Bool.and_eq_false_iff, bne_eq_false_iff_eq] at hsealed
      refine hsealed.imp id fun hfree => ⟨hne, hdef ?_⟩
      have hparent : Items.parent? p.items d.name.lexeme = some q := by
        rw [Items.parent?, (structDef?_eq_some_iff h.structNames).2 ⟨hd, rfl⟩]
        exact hq
      refine (hparents _ q hparent).resolve_left fun hbuiltin => ?_
      rw [Builtin.contains_eq_false_of_not_reserved hfree] at hbuiltin
      cases hbuiltin
    · exact (show d.Admissible from h.each _ (mem_structDefs.1 hd)).attributes
    · have hadmissible : d.Admissible := h.each _ (mem_implDefs.1 hd)
      refine ⟨Nat.le_antisymm hadmissible.constructors ?_, hadmissible.methods, hadmissible.names⟩
      obtain ⟨_, i, hi, m, hm, hkind⟩ := hparts _ (.inr (List.mem_map.2 ⟨d, hd, rfl⟩))
      rw [(implDef?_eq_some_iff h.implNames).2 ⟨hd, rfl⟩] at hi
      cases hi
      exact List.length_pos_of_mem (List.mem_filter.2 ⟨hm, by simpa using hkind⟩)
    · rcases htypes n hn with hbuiltin | hnames
      · obtain ⟨_, _, token, _, htoken⟩ := hn
        rw [Ty.eq_of_ofName htoken] at htoken
        exact (Builtin.eq_of_ofName hbuiltin htoken).imp_right .inl
      · exact .inr (.inr (hdef hnames))
  · intro h
    refine ⟨h.declarable, fun c q hq => ?_, fun n hn => ?_, fun n hn => h.hasParts hn, h.compatible⟩
    · obtain ⟨d, hd, hdq⟩ := Option.bind_eq_some_iff.1 hq
      rcases h.parents d (List.mem_of_find?_eq_some hd) q hdq with hroot | ⟨_, hmem⟩
      · rw [hroot]
        exact .inl rfl
      · exact .inr (.inl hmem)
    · rcases h.types n hn with rfl | rfl | hmem
      · exact .inl rfl
      · exact .inl rfl
      · exact .inr (.inl hmem)

end Program

end StructLang
