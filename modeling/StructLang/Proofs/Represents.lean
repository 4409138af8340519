import StructLang.Proofs.Calls
import StructLang.Proofs.ItemRecord

/-!
# The table that items make

`Represents items t` says what a table is after a list of items has been declared without a failure,
in terms of the list alone: which names are registered, what the record and the place of every
struct is, who waits for a parent, and which types are noted.  Nothing of it depends on the order of
the items, except the token of a struct.

* `Arranged` is the part that concerns the tree; taking a place keeps it (`Arranged.place`).
* `rooted_iff_acyclic`: every struct stands under the root exactly when the declared parents do not
  run in a cycle, and so a declaration finds a cycle exactly when they do
  (`isCyclic_place_eq_false_iff`).
* `Represents.declare`: an item is accepted after a list exactly when the longer list is
  `Declarable`, and then the table represents the longer list.
* `exists_run_items`: all items of a list are accepted exactly when the list is `Declarable`.
-/

namespace StructLang

namespace Items

variable {items : List Item} {c n p : String}

/-- Where names are distinct, the first element of a name is the only one. -/
theorem find?_eq_some_iff_of_nodup {α : Type} {key : α → String} {l : List α}
    (h : (l.map key).Nodup) {k : String} {a : α} :
    l.find? (key · == k) = some a ↔ a ∈ l ∧ key a = k := by
  constructor
  · intro hfind
    exact ⟨List.mem_of_find?_eq_some hfind, by simpa using List.find?_some hfind⟩
  · rintro ⟨ha, rfl⟩
    obtain ⟨b, hb⟩ : ∃ b, l.find? (key · == key a) = some b := by
      rw [← Option.isSome_iff_exists, List.find?_isSome]
      exact ⟨a, ha, by simp⟩
    have hkey : key b = key a := by simpa using List.find?_some hb
    rw [hb, List.inj_on_of_nodup_map h (List.mem_of_find?_eq_some hb) ha hkey]

theorem structDef?_eq_some_iff (h : ((structDefs items).map (·.name.lexeme)).Nodup)
    {d : StructDef} : structDef? items n = some d ↔ d ∈ structDefs items ∧ d.name.lexeme = n :=
  find?_eq_some_iff_of_nodup h

theorem implDef?_eq_some_iff (h : ((implDefs items).map (·.name.lexeme)).Nodup)
    {d : ImplDef} : implDef? items n = some d ↔ d ∈ implDefs items ∧ d.name.lexeme = n :=
  find?_eq_some_iff_of_nodup h

theorem inherits_iff (h : ((structDefs items).map (·.name.lexeme)).Nodup) :
    Inherits items c p ↔ (parent? items c).map (·.lexeme) = some p := by
  rw [Inherits, parent?]
  constructor
  · rintro ⟨d, hd, hc, hp⟩
    rw [(structDef?_eq_some_iff h).2 ⟨hd, hc⟩]
    exact hp
  · intro hp
    obtain ⟨q, hq, hqp⟩ := Option.map_eq_some_iff.1 hp
    obtain ⟨d, hd, hdq⟩ := Option.bind_eq_some_iff.1 hq
    obtain ⟨hmem, hc⟩ := (structDef?_eq_some_iff h).1 hd
    exact ⟨d, hmem, hc, by rw [hdq, Option.map_some, hqp]⟩

theorem Inherits.names (h : Inherits items c p) : Names items c := by
  obtain ⟨d, hd, hc, _⟩ := h
  exact .inl (List.mem_map.2 ⟨d, hd, hc⟩)

theorem names_of_parent? {token : Token} (h : parent? items n = some token) : Names items n := by
  obtain ⟨d, hd, _⟩ := Option.bind_eq_some_iff.1 h
  refine .inl (List.mem_map.2 ⟨d, List.mem_of_find?_eq_some hd, ?_⟩)
  simpa using List.find?_some hd

theorem names_append_struct (items : List Item) (d : StructDef) (n : String) :
    Names (items ++ [.struct d]) n ↔ n = d.name.lexeme ∨ Names items n := by
  simp only [Names, structDefs_append, implDefs_append, Item.structDef?, Item.implDef?,
    Option.toList_some, Option.toList_none, List.append_nil, List.map_append, List.mem_append,
    List.map_cons, List.map_nil, List.mem_singleton]
  tauto

theorem names_append_impl (items : List Item) (d : ImplDef) (n : String) :
    Names (items ++ [.impl d]) n ↔ n = d.name.lexeme ∨ Names items n := by
  simp only [Names, structDefs_append, implDefs_append, Item.structDef?, Item.implDef?,
    Option.toList_some, Option.toList_none, List.append_nil, List.map_append, List.mem_append,
    List.map_cons, List.map_nil, List.mem_singleton]
  tauto

theorem parent?_append_struct {d : StructDef} (hnew : structDef? items d.name.lexeme = none)
    (n : String) : parent? (items ++ [.struct d]) n =
      if n = d.name.lexeme then d.parent else parent? items n := by
  by_cases hn : n = d.name.lexeme
  · simp [parent?, Option.filter_some, hn, hnew]
  · simp [parent?, Option.filter_some, hn, Ne.symm hn]

end Items

namespace SymbolTable

open Items

variable {items items' : List Item} {t t' : SymbolTable} {c n p : String}

/-! ## The tree -/

/-- The registered structs, their parents and who waits, as a list of items gives them.  A struct
whose parent is not registered stands under the root and waits. -/
structure Arranged (items : List Item) (t : SymbolTable) : Prop where
  user : ∀ n, Names items n → Builtin.structs.contains n = false
  contains : ∀ n, t.contains n = true ↔ Builtin.structs.contains n = true ∨ Names items n
  parent : ∀ n, Builtin.structs.contains n = false → t.contains n = true →
    t.parent? n = some (t.home (Items.parent? items n))
  orphans : ∀ p c, c ∈ t.orphans p ↔
    t.contains p = false ∧ (Items.parent? items c).map (·.lexeme) = some p

namespace Arranged

theorem congr (h : Arranged items t) (hsame : t.SameTree t') : Arranged items t' := by
  have hhome (parent : Option Token) : t'.home parent = t.home parent := by
    cases parent with
    | none => rfl
    | some p => rw [home, home, hsame.contains_eq]
  refine ⟨h.user, fun n => ?_, fun n hn hc => ?_, fun p c => ?_⟩
  · rw [hsame.contains_eq]
    exact h.contains n
  · rw [hsame.contains_eq] at hc
    rw [hsame.parent?_eq, hhome]
    exact h.parent n hn hc
  · rw [hsame.orphans_eq, hsame.contains_eq]
    exact h.orphans p c

/-- Every struct stands where its items say after another one has taken its place: those that
waited for that one under it, the declared one under its own parent, the others as before. -/
theorem parent_place (h : Arranged items t) (hier : t.Hierarchy) {token : Token}
    {parent : Option Token} {form : Form} (hne : ∀ p, parent = some p → p.lexeme ≠ token.lexeme)
    (hform : form = .implementation → parent = none)
    (hparents : Items.parent? items' n =
      if n = token.lexeme ∧ form = .structural then parent else Items.parent? items n)
    (hn : Builtin.structs.contains n = false)
    (hreg : (t.place token parent form).contains n = true) :
    (t.place token parent form).parent? n =
      some ((t.place token parent form).home (Items.parent? items' n)) := by
  have hcontains (n : String) : (t.place token parent form).contains n =
      (decide (n = token.lexeme) || t.contains n) := contains_place hne n
  have hhome {q : Option Token} (hq : ∀ r, q = some r → r.lexeme ≠ token.lexeme) :
      (t.place token parent form).home q = t.home q := by
    cases q with
    | none => rfl
    | some r => simp [home, hcontains, hq r rfl]
  rw [parent?_place hne fun c hc => hier.contains_orphan hc, hparents]
  by_cases horphan : n ∈ t.orphans token.lexeme
  · -- the struct waited for the declared one
    obtain ⟨hnew, hwaits⟩ := (h.orphans _ _).1 horphan
    have hname : n ≠ token.lexeme := by
      rintro rfl
      rw [hier.contains_orphan horphan] at hnew
      cases hnew
    obtain ⟨q, hq, hqname⟩ := Option.map_eq_some_iff.1 hwaits
    rw [if_pos horphan, if_neg fun hboth => hname hboth.1, hq, home, hcontains]
    simp [hqname]
  rw [if_neg horphan]
  by_cases hmoves : n = token.lexeme ∧ (t.contains token.lexeme = false ∨ form = .structural)
  · -- the declared struct itself
    obtain ⟨rfl, hmoves⟩ := hmoves
    rw [if_pos ⟨rfl, hmoves⟩]
    by_cases hstructural : form = .structural
    · rw [if_pos ⟨rfl, hstructural⟩, hhome hne]
    · have himpl : form = .implementation := by
        cases form with
        | structural => exact absurd rfl hstructural
        | implementation => rfl
      have hnone : Items.parent? items token.lexeme = none := by
        by_contra hsome
        obtain ⟨q, hq⟩ := Option.ne_none_iff_exists'.1 hsome
        have hregistered := (h.contains _).2 (.inr (names_of_parent? hq))
        rw [hmoves.resolve_right hstructural] at hregistered
        cases hregistered
      rw [if_neg fun hboth => hstructural hboth.2, hnone, hform himpl]
      rfl
  · -- the others keep their parents
    have hold : t.contains n = true := by
      rw [hcontains, Bool.or_eq_true, decide_eq_true_iff] at hreg
      refine hreg.elim (fun hname => ?_) id
      by_contra hnot
      exact hmoves ⟨hname, .inl (hname ▸ Bool.eq_false_iff.2 hnot)⟩
    rw [if_neg hmoves, if_neg fun hboth => hmoves ⟨hboth.1, .inr hboth.2⟩, h.parent n hn hold]
    cases hq : Items.parent? items n with
    | none => rfl
    | some q =>
      by_cases hqname : q.lexeme = token.lexeme
      · have hregistered : t.contains token.lexeme = true := by
          by_contra hnot
          refine horphan ((h.orphans _ _).2 ⟨Bool.eq_false_iff.2 hnot, ?_⟩)
          rw [hq, Option.map_some, hqname]
        simp [home, hcontains, hqname, hregistered]
      · rw [hhome fun r hr => by cases hr; exact hqname]

/-- Taking a place keeps the arrangement: the list `items'` is `items` with a struct item or an impl
block for the struct. -/
theorem place (h : Arranged items t) (hier : t.Hierarchy) {token : Token} {parent : Option Token}
    {form : Form} (huser : Builtin.structs.contains token.lexeme = false)
    (hne : ∀ p, parent = some p → p.lexeme ≠ token.lexeme)
    (hform : form = .implementation → parent = none)
    (hfresh : form = .structural → Items.parent? items token.lexeme = none)
    (hnames : ∀ n, Names items' n ↔ n = token.lexeme ∨ Names items n)
    (hparents : ∀ n, Items.parent? items' n =
      if n = token.lexeme ∧ form = .structural then parent else Items.parent? items n) :
    Arranged items' (t.place token parent form) := by
  have hcontains (n : String) : (t.place token parent form).contains n =
      (decide (n = token.lexeme) || t.contains n) := contains_place hne n
  refine ⟨fun n hn => ?_, fun n => ?_, fun n hn hreg => ?_, fun p c => ?_⟩
  · rcases (hnames n).1 hn with rfl | hn
    · exact huser
    · exact h.user n hn
  · rw [hcontains, hnames, Bool.or_eq_true, decide_eq_true_iff, h.contains]
    exact or_left_comm
  · exact h.parent_place hier hne hform (hparents n) hn hreg
  · rw [mem_orphans_place hne, h.orphans, hcontains, hparents, Bool.or_eq_false_iff,
      decide_eq_false_iff_not]
    by_cases hc : c = token.lexeme ∧ form = .structural
    · rw [if_pos hc, hc.1, hfresh hc.2]
      simp [and_assoc]
    · have hother : ¬ (c = token.lexeme ∧ t.contains p = false ∧
          parent.map (·.lexeme) = some p) := by
        rintro ⟨rfl, _, hparent⟩
        exact hc ⟨rfl, form_of_parent hform hparent⟩
      rw [if_neg hc, or_iff_left hother, and_assoc]

/-- A parent in the table is the root or the declared one. -/
theorem inherits_of_extends (h : Arranged items t) (hr : t.Registry)
    (hnodup : ((structDefs items).map (·.name.lexeme)).Nodup) (hextends : t.Extends c p)
    (hp : p ≠ Builtin.root) : Inherits items c p := by
  have huser : Builtin.structs.contains c = false := by
    by_contra hbuiltin
    obtain ⟨b, hb⟩ := NameMap.contains_iff.1 (Bool.of_not_eq_false hbuiltin)
    have hc := hr.ne_root hextends
    have hroot := (Builtin.underRoot_of_get? hb hc).1
    rw [Extends, parent?_of_struct? (hr.builtin c b hc hb), hroot] at hextends
    exact hp (Option.some.inj hextends).symm
  have hparent := h.parent c huser hextends.contains
  rw [Extends, hparent, Option.some.injEq] at hextends
  rw [inherits_iff hnodup]
  cases hq : Items.parent? items c with
  | none =>
    rw [hq] at hextends
    exact absurd hextends.symm hp
  | some q =>
    rw [hq, home] at hextends
    split at hextends
    · rw [Option.map_some, hextends]
    · exact absurd hextends.symm hp

/-- A declared parent that is registered is the parent in the table. -/
theorem extends_of_inherits (h : Arranged items t)
    (hnodup : ((structDefs items).map (·.name.lexeme)).Nodup) (hinherits : Inherits items c p)
    (hp : t.contains p = true) : t.Extends c p := by
  have huser := h.user c hinherits.names
  have hregistered := (h.contains c).2 (.inr hinherits.names)
  obtain ⟨q, hq, rfl⟩ := Option.map_eq_some_iff.1 ((inherits_iff hnodup).1 hinherits)
  rw [Extends, h.parent c huser hregistered, hq, home, if_pos hp]

/-- Declared ancestors that are registered are ancestors in the table: every struct between declares
a parent, so it is registered. -/
theorem transGen_extends (h : Arranged items t)
    (hnodup : ((structDefs items).map (·.name.lexeme)).Nodup)
    (hpath : Relation.TransGen (Inherits items) c p) (hp : t.contains p = true) :
    Relation.TransGen t.Extends c p := by
  induction hpath with
  | single hstep => exact .single (h.extends_of_inherits hnodup hstep hp)
  | tail _ hstep ih =>
    exact (ih ((h.contains _).2 (.inr hstep.names))).tail (h.extends_of_inherits hnodup hstep hp)

/-- Ancestors in the table, apart from the root, are declared ancestors: the root has no parent, so
it is not between. -/
theorem transGen_inherits (h : Arranged items t) (hr : t.Registry)
    (hnodup : ((structDefs items).map (·.name.lexeme)).Nodup)
    (hpath : Relation.TransGen t.Extends c p) (hp : p ≠ Builtin.root) :
    Relation.TransGen (Inherits items) c p := by
  induction hpath with
  | single hstep => exact .single (h.inherits_of_extends hr hnodup hstep hp)
  | tail _ hstep ih => exact (ih (hr.ne_root hstep)).tail (h.inherits_of_extends hr hnodup hstep hp)

/-- Every struct stands under the root exactly when the declared parents do not run in a cycle. -/
theorem rooted_iff_acyclic (h : Arranged items t) (hier : t.Hierarchy) (hr : t.Registry)
    (hnodup : ((structDefs items).map (·.name.lexeme)).Nodup) :
    (∀ n, t.contains n = true → t.Rooted n) ↔
      ∀ n, ¬ Relation.TransGen (Inherits items) n n := by
  constructor
  · intro hrooted n hcycle
    obtain ⟨_, hstep, _⟩ := Relation.TransGen.head'_iff.1 hcycle
    have hn := (h.contains n).2 (.inr hstep.names)
    exact not_transGen_self hr.parent?_root (hrooted n hn) (h.transGen_extends hnodup hcycle hn)
  · intro hacyclic n hn
    have hclosed : ∀ n, t.contains n = true → n ≠ Builtin.root →
        ∃ p, t.Extends n p ∧ t.contains p = true := by
      intro n hn hne
      obtain ⟨p, hp, _⟩ := hier.parent n hn hne
      exact ⟨p, hp, hier.contains_parent hr hp⟩
    refine (rooted_or_cycle hclosed hn).resolve_right ?_
    rintro ⟨a, _, hcycle⟩
    obtain ⟨_, hstep, _⟩ := Relation.TransGen.head'_iff.1 hcycle
    exact hacyclic a (h.transGen_inherits hr hnodup hcycle (hr.ne_root hstep))

end Arranged

/-! ## The table -/

/-- The table that the items of a list make, one after the other and without a failure. -/
structure Represents (items : List Item) (t : SymbolTable) : Prop where
  sound : t.Sound
  arranged : Arranged items t
  rooted : ∀ n, t.contains n = true → t.Rooted n
  record : ∀ n s, Builtin.structs.contains n = false → t.struct? n = some s →
    s.detached = .ofItems s.token (structDef? items n) (implDef? items n)
  types : ∀ n, t.pendingTypes.contains n = true ↔ t.contains n = false ∧ Mentions items n
  start : t.start = (startDefs items).head?.map StartDef.method
  scope : t.scope = .closed
  consolidated : t.consolidated = false

theorem represents_new : Represents [] new where
  sound := sound_new
  arranged := by
    refine ⟨fun n hn => ?_, fun n => ?_, fun n hn hc => ?_, fun p c => ?_⟩
    · simp [Names, structDefs, implDefs] at hn
    · simp only [Names, structDefs, implDefs, List.filterMap_nil, List.map_nil, List.not_mem_nil,
        or_self, or_false]
      rfl
    · rw [show new.contains n = Builtin.structs.contains n from rfl, hn] at hc
      cases hc
    · simp [Items.parent?, structDef?, structDefs, orphans_new]
  rooted n hn := by
    refine sound_new.forms.grounded n hn fun a _ hloose => ?_
    obtain ⟨huser, hsome⟩ := hloose
    obtain ⟨s, hs, _⟩ := Option.map_eq_some_iff.1 hsome
    rw [show Builtin.structs.contains a = true from contains_iff_struct?.2 ⟨s, hs⟩] at huser
    cases huser
  record n s hn hs := by
    rw [show Builtin.structs.contains n = true from contains_iff_struct?.2 ⟨s, hs⟩] at hn
    cases hn
  types n := by simp [new, Mentions]
  start := rfl
  scope := rfl
  consolidated := rfl

namespace Represents

variable {token : Token} {parent : Option Token} {form : Form} {s s' : Struct}

/-- Whether a list has an item of a form for a name. -/
def hasForm (items : List Item) (n : String) : Form → Bool
  | .structural => (structDef? items n).isSome
  | .implementation => (implDef? items n).isSome

theorem hasForm_eq (h : Represents items t) (hn : Builtin.structs.contains n = false)
    (hs : t.struct? n = some s) (form : Form) : s.hasForm form = hasForm items n form := by
  have hrecord := h.record n s hn hs
  cases form with
  | structural =>
    exact (congrArg Struct.structural hrecord).trans (Struct.structural_ofItems _ _ _)
  | implementation =>
    exact (congrArg Struct.implemented hrecord).trans (Struct.implemented_ofItems _ _ _)

/-- A struct can take its place when its form is new, its parent may be one, and no cycle arises. -/
theorem structRefusal?_eq_none_iff (h : Represents items t) :
    t.structRefusal? token parent form = none ↔
      Builtin.isReserved token.lexeme = false ∧ hasForm items token.lexeme form = false ∧
      ∀ p, parent = some p → Builtin.isSealed p.lexeme = false ∧ p.lexeme ≠ token.lexeme := by
  rw [SymbolTable.structRefusal?_eq_none_iff]
  refine and_congr_right fun hreserved => and_congr_left fun _ => ?_
  have huser := Builtin.contains_eq_false_of_not_reserved hreserved
  cases hs : t.struct? token.lexeme with
  | some s =>
    rw [← h.hasForm_eq huser hs]
    simp
  | none =>
    have hnot : ¬ Names items token.lexeme := fun hnames => by
      have hcontains := (h.arranged.contains _).2 (.inr hnames)
      rw [contains_eq_false_iff_struct?.2 hs] at hcontains
      cases hcontains
    obtain ⟨hstruct, himpl⟩ := not_names_iff.1 hnot
    cases form <;> simp [hasForm, hstruct, himpl]

/-- The struct that has taken its place has the record that it had, with its form. -/
theorem struct?_enter (h : Represents items t) (hcan : t.CanEnter token parent form) :
    ∃ s, (t.enter token parent form).struct? token.lexeme = some s ∧
      s.token.lexeme = token.lexeme ∧
      s.detached = (Struct.ofItems s.token (structDef? items token.lexeme)
        (implDef? items token.lexeme)).recordForm form := by
  obtain ⟨hreserved, _, hparents⟩ := SymbolTable.structRefusal?_eq_none_iff.1 hcan.1
  have huser := Builtin.contains_eq_false_of_not_reserved hreserved
  have hne := fun p hp => (hparents p hp).2
  have hcontains : (t.place token parent form).contains token.lexeme = true := by
    rw [contains_place hne]
    simp
  obtain ⟨s, hs⟩ := contains_iff_struct?.1 hcontains
  have hplaced : s.token.lexeme = token.lexeme ∧ s.detached = .ofItems s.token
      (structDef? items token.lexeme) (implDef? items token.lexeme) := by
    rcases exists_struct?_place hne hs with ⟨_, hnone, hnew⟩ | ⟨s₀, hs₀, hold⟩
    · have hnot : ¬ Names items token.lexeme := fun hnames => by
        have hold := (h.arranged.contains _).2 (.inr hnames)
        rw [contains_eq_false_iff_struct?.2 hnone] at hold
        cases hold
      obtain ⟨hstruct, himpl⟩ := not_names_iff.1 hnot
      have htoken : s.token = token := congrArg Struct.token hnew
      rw [hstruct, himpl, hnew, htoken]
      exact ⟨rfl, rfl⟩
    · have htoken : s.token = s₀.token :=
        show s.detached.token = s₀.detached.token from congrArg Struct.token hold
      rw [hold, htoken]
      exact ⟨h.sound.registry.name_eq hs₀, h.record _ s₀ huser hs₀⟩
  refine ⟨s.recordForm form, ?_, ?_⟩
  · rw [enter, struct?_enroll, if_pos rfl, hs, Option.map_some]
  · have htoken : (s.recordForm form).token = s.token := by cases form <;> rfl
    have hdetached : (s.recordForm form).detached = s.detached.recordForm form := by
      cases form <;> rfl
    rw [htoken, hdetached, ← hplaced.2]
    exact ⟨hplaced.1, rfl⟩

/-- The tree after a struct has taken its place. -/
theorem arranged_place (h : Represents items t)
    (hfree : t.structRefusal? token parent form = none)
    (hform : form = .implementation → parent = none)
    (hnames : ∀ n, Names items' n ↔ n = token.lexeme ∨ Names items n)
    (hparents : ∀ n, Items.parent? items' n =
      if n = token.lexeme ∧ form = .structural then parent else Items.parent? items n) :
    Arranged items' (t.place token parent form) := by
  obtain ⟨hreserved, hfresh, hsealed⟩ := h.structRefusal?_eq_none_iff.1 hfree
  have hnone : form = .structural → Items.parent? items token.lexeme = none := by
    rintro rfl
    have hdef : structDef? items token.lexeme = none := by simpa [hasForm] using hfresh
    rw [Items.parent?, hdef]
    rfl
  exact h.arranged.place h.sound.hierarchy (Builtin.contains_eq_false_of_not_reserved hreserved)
    (fun p hp => (hsealed p hp).2) hform hnone hnames hparents

/-- A struct that takes its place and gets the members of an item. -/
theorem enter (h : Represents items t) (hcan : t.CanEnter token parent form)
    (hform : form = .implementation → parent = none)
    (hs : (t.enter token parent form).struct? token.lexeme = some s) (hmembers : s.MembersChange s')
    {types : List Token} (ht' : t' = (((t.enter token parent form).setStruct token.lexeme
      s').takeNotes ((t.enter token parent form).noteTypes types)).closed) (hsound : t'.Sound)
    (hnames : ∀ n, Names items' n ↔ n = token.lexeme ∨ Names items n)
    (hparents : ∀ n, Items.parent? items' n =
      if n = token.lexeme ∧ form = .structural then parent else Items.parent? items n)
    (hother : ∀ n, n ≠ token.lexeme →
      structDef? items' n = structDef? items n ∧ implDef? items' n = implDef? items n)
    (hrecord : s'.detached =
      .ofItems s'.token (structDef? items' token.lexeme) (implDef? items' token.lexeme))
    (htypes : ∀ n, Mentions items' n ↔
      Mentions items n ∨ ∃ token ∈ types, Ty.ofName token.lexeme = .struct n)
    (hstart : startDefs items' = startDefs items) : Represents items' t' := by
  have hne := fun p hp => ((h.structRefusal?_eq_none_iff.1 hcan.1).2.2 p hp).2
  have hplace := place_eq (t := t) hne form
  have hstruct (m : String) : t'.struct? m =
      if m = token.lexeme then some s' else (t.place token parent form).struct? m := by
    rw [ht']
    refine (struct?_setStruct (t.enter token parent form) token.lexeme s' m).trans ?_
    by_cases hm : m = token.lexeme
    · rw [if_pos hm, if_pos hm]
    · rw [if_neg hm, if_neg hm, SymbolTable.enter, struct?_enroll, if_neg hm]
  have hsame : (t.place token parent form).SameTree t' := by
    refine ⟨fun m => ?_, by rw [ht']; rfl⟩
    rw [hstruct]
    by_cases hm : m = token.lexeme
    · rw [SymbolTable.enter, struct?_enroll, if_pos rfl] at hs
      obtain ⟨s₁, hs₁, rfl⟩ := Option.map_eq_some_iff.1 hs
      obtain ⟨_, _, _, _, _, rfl⟩ := hmembers
      rw [if_pos hm, hm, hs₁]
      cases form <;> rfl
    · rw [if_neg hm]
  have hcontains (m : String) : t'.contains m = (decide (m = token.lexeme) || t.contains m) :=
    (hsame.contains_eq m).trans (contains_place hne m)
  refine ⟨hsound, (h.arranged_place hcan.1 hform hnames hparents).congr hsame, fun n hn => ?_,
    fun n s₁ hn hs₁ => ?_, fun n => ?_, ?_, ?_, ?_⟩
  · rw [Rooted, Below, hsame.extends_eq]
    rw [hsame.contains_eq] at hn
    have hrooted := (h.sound.isCyclic_place_eq_false_iff hcan.1 hform).1 hcan.2
    exact rooted_place (fun c => h.sound.hierarchy.contains_orphan) hne h.rooted hrooted hn
  · rw [hstruct] at hs₁
    by_cases hname : n = token.lexeme
    · rw [if_pos hname, Option.some.injEq] at hs₁
      rw [← hs₁, hname]
      exact hrecord
    · rw [if_neg hname] at hs₁
      rcases exists_struct?_place hne hs₁ with ⟨hn', _⟩ | ⟨s₀, hs₀, hold⟩
      · exact absurd hn' hname
      · have htoken : s₁.token = s₀.token :=
          show s₁.detached.token = s₀.detached.token from congrArg Struct.token hold
        rw [(hother n hname).1, (hother n hname).2, hold, htoken]
        exact h.record n s₀ hn hs₀
  · have hentered (m : String) : (t.enter token parent form).contains m = t'.contains m :=
      ((sameTree_enroll _ _ _).contains_eq m).trans (hsame.contains_eq m).symm
    have hnotes : t'.pendingTypes = ((t.enter token parent form).noteTypes types).pendingTypes := by
      rw [ht']
      rfl
    have hpending :
        (t.enter token parent form).pendingTypes = t.pendingTypes.erase token.lexeme := by
      rw [SymbolTable.enter, hplace]
      rfl
    rw [hnotes, contains_pendingTypes_noteTypes, hentered, hpending, NameMap.contains_erase,
      Bool.and_eq_true, h.types, htypes, hcontains]
    by_cases hname : n = token.lexeme
    · simp [hname]
    · simp [hname, and_or_left]
  · rw [ht', hstart, ← h.start]
    show (t.place token parent form).start = t.start
    rw [hplace]
  · rw [ht']
    rfl
  · rw [ht', ← h.consolidated]
    show (t.place token parent form).consolidated = t.consolidated
    rw [hplace]

end Represents

/-! ## Items -/

theorem moves_declare (item : Item) : Moves Step item.declare := Call.moves_item Call.moves item

namespace Represents

variable {token : Token} {parent : Option Token} {form : Form} {s s' : Struct}

/-- The declared struct stands under the root exactly when the declared parents run in no cycle. -/
theorem isCyclic_place_eq_false_iff (h : Represents items t)
    (hfree : t.structRefusal? token parent form = none)
    (hform : form = .implementation → parent = none)
    (hnames : ∀ n, Names items' n ↔ n = token.lexeme ∨ Names items n)
    (hparents : ∀ n, Items.parent? items' n =
      if n = token.lexeme ∧ form = .structural then parent else Items.parent? items n)
    (hnodup : ((structDefs items').map (·.name.lexeme)).Nodup) :
    (t.place token parent form).isCyclic token.lexeme = false ↔
      ∀ n, ¬ Relation.TransGen (Inherits items') n n := by
  rw [h.sound.isCyclic_place_eq_false_iff hfree hform]
  have harranged := h.arranged_place hfree hform hnames hparents
  obtain ⟨hreserved, hfresh, hsealed⟩ := h.structRefusal?_eq_none_iff.1 hfree
  have hne := fun p hp => (hsealed p hp).2
  have hier := h.sound.hierarchy.place h.sound.forms h.sound.registry hfree hform
  have hregistry := h.sound.registry.place h.sound.hierarchy hier hfree
  rw [← harranged.rooted_iff_acyclic hier hregistry hnodup]
  constructor
  · intro hrooted n hn
    exact rooted_place (fun c => h.sound.hierarchy.contains_orphan) hne h.rooted hrooted hn
  · refine fun hall => hall _ ?_
    rw [contains_place hne]
    simp

/-- A struct item is accepted after a list exactly when the longer list is declarable. -/
theorem declare_struct (h : Represents items t) (hitems : Declarable items) (d : StructDef) :
    (∀ t', (Item.struct d).declare.run t = .ok () t' →
      Declarable (items ++ [.struct d]) ∧ Represents (items ++ [.struct d]) t') ∧
    (Declarable (items ++ [.struct d]) → ∃ t', (Item.struct d).declare.run t = .ok () t') := by
  have hform : Form.structural = .implementation → d.parent = none := fun h => by cases h
  have hfresh : hasForm items d.name.lexeme .structural = false ↔
      structDef? items d.name.lexeme = none := by simp [hasForm]
  have hnames (n : String) := names_append_struct items d n
  have hnodup (hnew : structDef? items d.name.lexeme = none) :
      ((structDefs (items ++ [.struct d])).map (·.name.lexeme)).Nodup := by
    rw [structDefs_append, List.map_append]
    exact (nodup_append_singleton _).2 ⟨hitems.structNames, structDef?_eq_none_iff.1 hnew⟩
  have hparents (hnew : structDef? items d.name.lexeme = none) (n : String) :
      Items.parent? (items ++ [.struct d]) n =
        if n = d.name.lexeme ∧ Form.structural = .structural then d.parent
        else Items.parent? items n := by
    simp [parent?_append_struct hnew]
  constructor
  · intro t' hrun
    have hsound := h.sound.reaches ((moves_declare _).of_ok hrun)
    have hcan : t.CanEnter d.name d.parent .structural := by
      rw [Item.declare, run_bind_closeScope_eq_ok] at hrun
      obtain ⟨_, hfirst, _⟩ := hrun
      exact ((declareStruct_eq_ok _ _ _).1 hfirst).1
    obtain ⟨hreserved, hnew, hsealed⟩ := h.structRefusal?_eq_none_iff.1 hcan.1
    rw [hfresh] at hnew
    obtain ⟨s, hs, hname, hrecord⟩ := h.struct?_enter hcan
    rw [hnew] at hrecord
    obtain ⟨_, haccepts, ht'⟩ := (declare_struct_eq_ok d hs).1 hrun
    have hattributes := (Struct.acceptsAll_structItem hrecord d).1 haccepts
    have hacyclic := (h.isCyclic_place_eq_false_iff hcan.1 hform hnames (hparents hnew)
      (hnodup hnew)).1 hcan.2
    refine ⟨(declarable_struct d).2 ⟨hitems, ⟨hreserved, hsealed, hattributes⟩, hnew, hacyclic⟩, ?_⟩
    obtain ⟨attributes, slot, hs'⟩ := Struct.exists_withAttributes s d.attributes
    have hdetached := Struct.detached_withAttributes hrecord d
    refine h.enter hcan hform hs ⟨_, _, _, _, _, hs'⟩ ht' hsound hnames (hparents hnew)
      (fun n hn => ?_) ?_ (mentions_append items (.struct d)) (by simp)
    · simp [Option.filter_some, Ne.symm hn]
    · have hdef : structDef? (items ++ [.struct d]) d.name.lexeme = some d := by
        simp [Option.filter_some, hnew]
      have hother : implDef? (items ++ [.struct d]) d.name.lexeme =
          implDef? items d.name.lexeme := by simp
      rw [hdef, hother, hdetached, hs']
  · intro hmore
    obtain ⟨_, hd, hnew, hacyclic⟩ := (declarable_struct d).1 hmore
    have hfree := h.structRefusal?_eq_none_iff.2 ⟨hd.name, hfresh.2 hnew, hd.parent⟩
    have hstraight := (h.isCyclic_place_eq_false_iff hfree hform hnames (hparents hnew)
      (hnodup hnew)).2 hacyclic
    have hcan : t.CanEnter d.name d.parent .structural := ⟨hfree, hstraight⟩
    obtain ⟨s, hs, hname, hrecord⟩ := h.struct?_enter hcan
    rw [hnew] at hrecord
    exact ⟨_, (declare_struct_eq_ok d hs).2
      ⟨hcan, (Struct.acceptsAll_structItem hrecord d).2 hd.attributes, rfl⟩⟩

/-- An impl block is accepted after a list exactly when the longer list is declarable. -/
theorem declare_impl (h : Represents items t) (hitems : Declarable items) (d : ImplDef) :
    (∀ t', (Item.impl d).declare.run t = .ok () t' →
      Declarable (items ++ [.impl d]) ∧ Represents (items ++ [.impl d]) t') ∧
    (Declarable (items ++ [.impl d]) → ∃ t', (Item.impl d).declare.run t = .ok () t') := by
  have hform : Form.implementation = .implementation → (none : Option Token) = none := fun _ => rfl
  have hfresh : hasForm items d.name.lexeme .implementation = false ↔
      implDef? items d.name.lexeme = none := by simp [hasForm]
  have hnames (n : String) := names_append_impl items d n
  have hparents (n : String) : Items.parent? (items ++ [.impl d]) n =
      if n = d.name.lexeme ∧ Form.implementation = .structural then none
      else Items.parent? items n := by
    simp [Items.parent?]
  -- an impl block names no parent, so it closes no cycle
  have hstraight (hfree : t.structRefusal? d.name none .implementation = none) :
      (t.place d.name none .implementation).isCyclic d.name.lexeme = false := by
    refine (h.isCyclic_place_eq_false_iff hfree hform hnames hparents ?_).2 ?_
    · simpa using hitems.structNames
    · rw [inherits_append_of_structDef? rfl]
      exact hitems.acyclic
  constructor
  · intro t' hrun
    have hsound := h.sound.reaches ((moves_declare _).of_ok hrun)
    have hcan : t.CanEnter d.name none .implementation := by
      rw [Item.declare, run_bind_closeScope_eq_ok] at hrun
      obtain ⟨_, hfirst, _⟩ := hrun
      exact ((declareStruct_eq_ok _ _ _).1 hfirst).1
    obtain ⟨hreserved, hnew, _⟩ := h.structRefusal?_eq_none_iff.1 hcan.1
    rw [hfresh] at hnew
    obtain ⟨s, hs, hname, hrecord⟩ := h.struct?_enter hcan
    rw [hnew] at hrecord
    obtain ⟨_, haccepts, ht'⟩ := (declare_impl_eq_ok d hs).1 hrun
    obtain ⟨hmethods, hconstructors, hordinary⟩ :=
      (Struct.acceptsAll_implBlock hrecord d).1 haccepts
    refine ⟨(declarable_impl d).2
      ⟨hitems, ⟨hreserved, hmethods, hconstructors, hordinary⟩, hnew⟩, ?_⟩
    obtain ⟨methods, constructor, slot, hs'⟩ := Struct.exists_withMethods s d.methods
    have hdetached := Struct.detached_withMethods hrecord d
    refine h.enter hcan hform hs ⟨_, _, _, _, _, hs'⟩ ht' hsound hnames hparents
      (fun n hn => ?_) ?_ (mentions_append items (.impl d)) (by simp)
    · simp [Option.filter_some, Ne.symm hn]
    · have hdef : implDef? (items ++ [.impl d]) d.name.lexeme = some d := by
        simp [Option.filter_some, hnew]
      have hother : structDef? (items ++ [.impl d]) d.name.lexeme =
          structDef? items d.name.lexeme := by simp
      rw [hdef, hother, hdetached, hs']
  · intro hmore
    obtain ⟨_, hd, hnew⟩ := (declarable_impl d).1 hmore
    have hfree : t.structRefusal? d.name none .implementation = none :=
      h.structRefusal?_eq_none_iff.2 ⟨hd.name, hfresh.2 hnew, fun p hp => by cases hp⟩
    have hcan : t.CanEnter d.name none .implementation := ⟨hfree, hstraight hfree⟩
    obtain ⟨s, hs, hname, hrecord⟩ := h.struct?_enter hcan
    rw [hnew] at hrecord
    exact ⟨_, (declare_impl_eq_ok d hs).2 ⟨hcan, (Struct.acceptsAll_implBlock hrecord d).2
      ⟨hd.methods, hd.constructors, hd.names⟩, rfl⟩⟩

/-- A start item is accepted after a list exactly when the longer list is declarable. -/
theorem declare_start (h : Represents items t) (hitems : Declarable items) (d : StartDef) :
    (∀ t', (Item.start d).declare.run t = .ok () t' →
      Declarable (items ++ [.start d]) ∧ Represents (items ++ [.start d]) t') ∧
    (Declarable (items ++ [.start d]) → ∃ t', (Item.start d).declare.run t = .ok () t') := by
  have hstart : t.start = none ↔ startDefs items = [] := by
    rw [h.start, Option.map_eq_none_iff, List.head?_eq_none_iff]
  constructor
  · intro t' hrun
    have hsound := h.sound.reaches ((moves_declare _).of_ok hrun)
    obtain ⟨hnone, hlocals, rfl⟩ := (declare_start_eq_ok d).1 hrun
    rw [hstart] at hnone
    refine ⟨(declarable_start d).2 ⟨hitems, hlocals, hnone⟩, ?_⟩
    have hnames (n : String) : Names (items ++ [.start d]) n ↔ Names items n := by simp [Names]
    have hparents (n : String) : Items.parent? (items ++ [.start d]) n = Items.parent? items n := by
      simp [Items.parent?]
    refine ⟨hsound, ⟨fun n hn => h.arranged.user n ((hnames n).1 hn), fun n => ?_,
      fun n hn hc => ?_, fun p c => ?_⟩, h.rooted, fun n s hn hs => ?_, fun n => ?_, ?_, rfl,
      h.consolidated⟩
    · rw [hnames]
      exact h.arranged.contains n
    · rw [hparents]
      exact h.arranged.parent n hn hc
    · rw [hparents]
      exact h.arranged.orphans p c
    · simpa using h.record n s hn hs
    · refine (contains_pendingTypes_noteTypes t (d.locals.map VarDef.ty) n).trans ?_
      rw [h.types, mentions_append, ← and_or_left]
      rfl
    · simp [hnone, takeNotes, closed]
  · intro hmore
    obtain ⟨_, hlocals, hnone⟩ := (declarable_start d).1 hmore
    exact ⟨_, (declare_start_eq_ok d).2 ⟨hstart.2 hnone, hlocals, rfl⟩⟩

/-- An item is accepted after a list exactly when the longer list is declarable, and then the table
represents the longer list. -/
theorem declare (h : Represents items t) (hitems : Declarable items) (item : Item) :
    (∀ t', item.declare.run t = .ok () t' →
      Declarable (items ++ [item]) ∧ Represents (items ++ [item]) t') ∧
    (Declarable (items ++ [item]) → ∃ t', item.declare.run t = .ok () t') := by
  cases item with
  | struct d => exact h.declare_struct hitems d
  | impl d => exact h.declare_impl hitems d
  | start d => exact h.declare_start hitems d

/-- The items of a list are accepted after others exactly when all together are declarable. -/
theorem declare_all (h : Represents items t) (hitems : Declarable items) (more : List Item) :
    (∀ t', (more.forM Item.declare).run t = .ok () t' →
      Declarable (items ++ more) ∧ Represents (items ++ more) t') ∧
    (Declarable (items ++ more) → ∃ t', (more.forM Item.declare).run t = .ok () t') := by
  induction more generalizing items t with
  | nil =>
    rw [List.append_nil]
    refine ⟨?_, fun _ => ⟨t, rfl⟩⟩
    rintro t' ⟨⟩
    exact ⟨hitems, h⟩
  | cons item more ih =>
    rw [List.append_cons]
    constructor
    · intro t' hrun
      obtain ⟨t₁, hfirst, hrest⟩ := run_forM_cons_eq_ok.1 hrun
      obtain ⟨hitems₁, h₁⟩ := (h.declare hitems item).1 t₁ hfirst
      exact (ih h₁ hitems₁).1 t' hrest
    · intro hmore
      obtain ⟨t₁, hfirst⟩ := (h.declare hitems item).2 hmore.of_append
      obtain ⟨hitems₁, h₁⟩ := (h.declare hitems item).1 t₁ hfirst
      obtain ⟨t', hrest⟩ := (ih h₁ hitems₁).2 hmore
      exact ⟨t', run_forM_cons_eq_ok.2 ⟨t₁, hfirst, hrest⟩⟩

end Represents

/-- All items of a list are accepted exactly when the list is declarable. -/
theorem exists_run_items (items : List Item) :
    (∃ t, (items.forM Item.declare).run new = .ok () t) ↔ Declarable items := by
  have hall := represents_new.declare_all declarable_nil items
  rw [List.nil_append] at hall
  exact ⟨fun ⟨t, hrun⟩ => (hall.1 t hrun).1, hall.2⟩

/-- The table that the items of a list leave represents the list. -/
theorem represents_of_run (hrun : (items.forM Item.declare).run new = .ok () t) :
    Represents items t := by
  simpa using ((represents_new.declare_all declarable_nil items).1 t hrun).2

end SymbolTable

end StructLang
