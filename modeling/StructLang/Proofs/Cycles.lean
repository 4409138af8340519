import StructLang.Proofs.Represents

/-!
# Where a cycle is reported

Declarations of structs, without their members, are refused exactly at the one that closes the first
cycle of parents (`reportsCycles`).  It does not matter which of them waited for a parent, nor where
the impl blocks stand.

A `Heading` is the declaration of one form of a struct.  Headings without members are items, apart
from the scope that they leave open (`run_item_eq_ok`), so what is known about lists of items
applies: they are accepted exactly when the list is `Declarable`.  What is left is about the graph
alone.

* A cycle of declared parents meets only structs with a struct item (`acyclic_iff`), since every
  struct on it names a parent.
* A heading adds edges at its own name only, so a cycle that it closes passes through this name
  (`transGen_or_transGen_self`).
-/

namespace StructLang

/-- The declaration of one form of a struct. -/
structure Heading where
  token : Token
  parent : Option Token
  form : Form

namespace Heading

def name (d : Heading) : String := d.token.lexeme

/-- Declares the struct and leaves it open. -/
def declare (d : Heading) : Declaring Unit := SymbolTable.declareStruct d.token d.parent d.form

/-- The item of a heading, without members. -/
def item (d : Heading) : Item :=
  match d.form with
  | .structural => .struct ⟨d.token, d.parent, []⟩
  | .implementation => .impl ⟨d.token, []⟩

end Heading

namespace Headings

variable {ds : List Heading} {n : String}

/-- No form is repeated, no name is built in, and no parent is sealed or the struct itself. -/
structure Regular (ds : List Heading) : Prop where
  forms : (ds.map fun d => (d.name, d.form)).Nodup
  names : ∀ d ∈ ds, Builtin.isReserved d.name = false
  parents : ∀ d ∈ ds, d.form = .structural → ∀ p, d.parent = some p →
    Builtin.isSealed p.lexeme = false ∧ p.lexeme ≠ d.name

/-- A struct has a struct item among the headings. -/
def Declares (ds : List Heading) (n : String) : Prop :=
  ∃ d ∈ ds, d.form = .structural ∧ d.name = n

/-- A struct item names a parent, and the parent has a struct item too. -/
def Links (ds : List Heading) (c p : String) : Prop :=
  (∃ d ∈ ds, d.form = .structural ∧ d.name = c ∧ d.parent.map (·.lexeme) = some p) ∧ Declares ds p

/-- The links run in no cycle. -/
def Acyclic (ds : List Heading) : Prop := ∀ n, ¬ Relation.TransGen (Links ds) n n

theorem Regular.of_append {more : List Heading} (h : Regular (ds ++ more)) : Regular ds where
  forms := by
    have hforms := h.forms
    rw [List.map_append] at hforms
    exact hforms.of_append_left
  names d hd := h.names d (List.mem_append_left _ hd)
  parents d hd := h.parents d (List.mem_append_left _ hd)

/-! ## The graph of declared parents -/

section Graph

variable {α : Type} {r r' : α → α → Prop} {a b x : α}

/-- A path to a node with a successor meets only nodes with a successor. -/
theorem transGen_successor (h : Relation.TransGen r a b) (hb : ∃ c, r b c) :
    Relation.TransGen (fun a b => r a b ∧ ∃ c, r b c) a b := by
  induction h with
  | single hstep => exact .single ⟨hstep, hb⟩
  | tail _ hstep ih => exact (ih ⟨_, hstep⟩).tail ⟨hstep, hb⟩

/-- A path that takes a new edge passes through the node where the new edges start. -/
theorem transGen_or_through (hnew : ∀ a b, r' a b → r a b ∨ a = x)
    (h : Relation.TransGen r' a b) :
    Relation.TransGen r a b ∨ Relation.ReflTransGen r' a x ∧ Relation.TransGen r' x b := by
  induction h with
  | single hstep =>
    rcases hnew _ _ hstep with hold | rfl
    · exact .inl (.single hold)
    · exact .inr ⟨.refl, .single hstep⟩
  | tail hpath hstep ih =>
    rcases ih with hold | ⟨hto, hfrom⟩
    · rcases hnew _ _ hstep with hlast | rfl
      · exact .inl (hold.tail hlast)
      · exact .inr ⟨hpath.to_reflTransGen, .single hstep⟩
    · exact .inr ⟨hto, hfrom.tail hstep⟩

/-- A cycle is old, or there is one through the node where the new edges start. -/
theorem transGen_or_transGen_self (hnew : ∀ a b, r' a b → r a b ∨ a = x)
    (h : Relation.TransGen r' a a) : Relation.TransGen r a a ∨ Relation.TransGen r' x x :=
  (transGen_or_through hnew h).imp_right fun ⟨hto, hfrom⟩ => hfrom.trans_left hto

end Graph

theorem structDefs_items (ds : List Heading) :
    Items.structDefs (ds.map Heading.item) =
      (ds.filter (·.form = .structural)).map fun d => ⟨d.token, d.parent, []⟩ := by
  induction ds with
  | nil => rfl
  | cons d ds ih =>
    rw [Items.structDefs] at ih ⊢
    cases hform : d.form <;> simp [Heading.item, hform, ih, List.filterMap_cons]

theorem implDefs_items (ds : List Heading) :
    Items.implDefs (ds.map Heading.item) =
      (ds.filter (·.form = .implementation)).map fun d => ⟨d.token, []⟩ := by
  induction ds with
  | nil => rfl
  | cons d ds ih =>
    rw [Items.implDefs] at ih ⊢
    cases hform : d.form <;> simp [Heading.item, hform, ih, List.filterMap_cons]

theorem startDefs_items (ds : List Heading) : Items.startDefs (ds.map Heading.item) = [] := by
  rw [Items.startDefs, List.filterMap_eq_nil_iff]
  intro item hitem
  obtain ⟨d, _, rfl⟩ := List.mem_map.1 hitem
  cases hform : d.form <;> simp [Heading.item, hform]

theorem inherits_items {c p : String} :
    Items.Inherits (ds.map Heading.item) c p ↔
      ∃ d ∈ ds, d.form = .structural ∧ d.name = c ∧ d.parent.map (·.lexeme) = some p := by
  simp [Items.Inherits, structDefs_items, Heading.name, and_assoc]

/-- Parents without a struct item are on no cycle. -/
theorem transGen_links_self :
    Relation.TransGen (Links ds) n n ↔
      Relation.TransGen (Items.Inherits (ds.map Heading.item)) n n := by
  constructor
  · exact Relation.TransGen.mono (fun _ _ h => inherits_items.2 h.1) n n
  · intro hcycle
    obtain ⟨_, hstep, _⟩ := Relation.TransGen.head'_iff.1 hcycle
    refine Relation.TransGen.mono ?_ n n (transGen_successor hcycle ⟨_, hstep⟩)
    rintro a b ⟨hab, c, hbc⟩
    obtain ⟨d, hd, hform, hname, _⟩ := inherits_items.1 hbc
    exact ⟨inherits_items.1 hab, d, hd, hform, hname⟩

theorem acyclic_iff :
    Acyclic ds ↔ ∀ n, ¬ Relation.TransGen (Items.Inherits (ds.map Heading.item)) n n :=
  forall_congr' fun _ => not_congr transGen_links_self

/-- No struct has two headings of one form. -/
theorem Regular.nodup_names (h : Regular ds) (form : Form) :
    ((ds.filter (·.form = form)).map Heading.name).Nodup := by
  have hsublist : (ds.filter (·.form = form)).Sublist ds := List.filter_sublist
  have hforms := (hsublist.map fun d => (d.name, d.form)).nodup h.forms
  have hpairs : (ds.filter (·.form = form)).map (fun d => (d.name, d.form)) =
      ((ds.filter (·.form = form)).map Heading.name).map (·, form) := by
    rw [List.map_map]
    refine List.map_congr_left fun d hd => ?_
    rw [Function.comp_apply, of_decide_eq_true (List.mem_filter.1 hd).2]
  rw [hpairs] at hforms
  exact hforms.of_map _

/-- Regular headings can be declared exactly when they run in no cycle. -/
theorem Regular.declarable_iff (h : Regular ds) :
    Items.Declarable (ds.map Heading.item) ↔ Acyclic ds := by
  rw [acyclic_iff]
  refine ⟨Items.Declarable.acyclic, fun hacyclic => ⟨fun item hitem => ?_, ?_, ?_, ?_, hacyclic⟩⟩
  · obtain ⟨d, hd, rfl⟩ := List.mem_map.1 hitem
    rw [Heading.item]
    cases hform : d.form with
    | structural => exact ⟨h.names d hd, h.parents d hd hform, List.nodup_nil⟩
    | implementation => exact ⟨h.names d hd, by simp, Nat.zero_le _, List.nodup_nil⟩
  · rw [structDefs_items, List.map_map]
    exact h.nodup_names .structural
  · rw [implDefs_items, List.map_map]
    exact h.nodup_names .implementation
  · simp [startDefs_items]

end Headings

/-! ## The scope -/

namespace SymbolTable

variable {t t' : SymbolTable} {token : Token} {parent : Option Token} {form : Form}

/-- What is open does not matter for the place of a struct. -/
theorem place_closed (hne : ∀ p, parent = some p → p.lexeme ≠ token.lexeme) :
    t.closed.place token parent form = (t.place token parent form).closed := by
  have hawait : (t.closed.await token.lexeme parent).pendingParents =
      (t.await token.lexeme parent).pendingParents := by
    cases parent with
    | none => rfl
    | some p =>
      have hcontains : t.closed.contains p.lexeme = t.contains p.lexeme := rfl
      rw [await, await, hcontains]
      split <;> rfl
  have hsettle : (t.closed.settle token (t.closed.home parent) form).structs =
      (t.settle token (t.home parent) form).structs := by
    have hhome : t.closed.home parent = t.home parent := by cases parent <;> rfl
    have hstructs : t.closed.structs = t.structs := rfl
    rw [hhome, structs_settle_congr hstructs]
  have hadopt := structs_adopt_congr hsettle token.lexeme (t.orphans token.lexeme)
  rw [place_eq hne, place_eq hne, hawait]
  exact congrArg (fun structs => ({ t with
    structs, scope := .closed
    pendingParents := (t.await token.lexeme parent).pendingParents.erase token.lexeme
    pendingTypes := t.pendingTypes.erase token.lexeme } : SymbolTable)) hadopt

theorem canEnter_closed : t.closed.CanEnter token parent form ↔ t.CanEnter token parent form := by
  have hfree : t.closed.structRefusal? token parent form = t.structRefusal? token parent form := rfl
  rw [CanEnter, CanEnter, hfree]
  refine and_congr_right fun hfree => ?_
  have hsame : (t.place token parent form).closed.structs = (t.place token parent form).structs :=
    rfl
  rw [place_closed fun p hp => ((structRefusal?_eq_none_iff.1 hfree).2.2 p hp).2,
    isCyclic_congr hsame]

theorem enter_closed (h : t.CanEnter token parent form) :
    t.closed.enter token parent form = t.enter token parent form := by
  rw [enter, enter, place_closed fun p hp => ((structRefusal?_eq_none_iff.1 h.1).2.2 p hp).2]
  rfl

/-- The item of a heading is accepted when the heading is, and it closes the struct again. -/
theorem run_item_eq_ok (d : Heading) :
    d.item.declare.run t.closed = .ok () t' ↔
      ∃ t₁, d.declare.run t = .ok () t₁ ∧ t' = t₁.closed := by
  have hitem : d.item.declare = (do d.declare; closeScope : Declaring Unit) := by
    rw [Heading.item, Heading.declare]
    cases d.form <;> rfl
  rw [hitem, run_bind_eq_ok, Heading.declare]
  constructor
  · rintro ⟨⟨⟩, _, hrun, hclose⟩
    obtain ⟨hcan, rfl⟩ := (declareStruct_eq_ok _ _ _).1 hrun
    cases hclose
    rw [canEnter_closed] at hcan
    refine ⟨_, (declareStruct_eq_ok _ _ _).2 ⟨hcan, rfl⟩, ?_⟩
    rw [enter_closed hcan]
    rfl
  · rintro ⟨t₁, hrun, rfl⟩
    obtain ⟨hcan, rfl⟩ := (declareStruct_eq_ok _ _ _).1 hrun
    refine ⟨(), _, (declareStruct_eq_ok _ _ _).2 ⟨canEnter_closed.2 hcan, rfl⟩, ?_⟩
    rw [enter_closed hcan]
    rfl

theorem run_items_eq_ok (ds : List Heading) :
    ((ds.map Heading.item).forM Item.declare).run t.closed = .ok () t' ↔
      ∃ t₁, (ds.forM Heading.declare).run t = .ok () t₁ ∧ t' = t₁.closed := by
  induction ds generalizing t with
  | nil =>
    rw [List.map_nil, run_forM_nil, run_forM_nil]
    simp [eq_comm]
  | cons d ds ih =>
    rw [List.map_cons, run_forM_cons_eq_ok]
    simp only [run_forM_cons_eq_ok, run_item_eq_ok]
    constructor
    · rintro ⟨_, ⟨t₁, hfirst, rfl⟩, hitems⟩
      obtain ⟨t₂, hrest, ht'⟩ := ih.1 hitems
      exact ⟨t₂, ⟨t₁, hfirst, hrest⟩, ht'⟩
    · rintro ⟨t₂, ⟨t₁, hfirst, hrest⟩, rfl⟩
      exact ⟨_, ⟨t₁, hfirst, rfl⟩, ih.2 ⟨t₂, hrest, rfl⟩⟩

end SymbolTable

/-! ## Headings -/

namespace Headings

open SymbolTable

variable {ds : List Heading} {d : Heading} {t : SymbolTable}

/-- The table that headings leave is that of their items, apart from the open struct. -/
theorem represents_closed (hrun : (ds.forM Heading.declare).run new = .ok () t) :
    Represents (ds.map Heading.item) t.closed :=
  represents_of_run ((run_items_eq_ok (t := new) ds).2 ⟨t, hrun, rfl⟩)

/-- Regular headings are all accepted exactly when they run in no cycle. -/
theorem Regular.succeeds_iff (h : Regular ds) :
    succeeds (ds.forM Heading.declare) new = true ↔ Acyclic ds := by
  rw [← h.declarable_iff, ← exists_run_items]
  constructor
  · intro hsucceeds
    exact ⟨_, (run_items_eq_ok (t := new) ds).2 ⟨_, run_of_succeeds hsucceeds, rfl⟩⟩
  · rintro ⟨_, hrun⟩
    obtain ⟨t, hrun, _⟩ := (run_items_eq_ok (t := new) ds).1 hrun
    rw [succeeds, hrun]

theorem hasForm_items {n : String} {form : Form} :
    Represents.hasForm (ds.map Heading.item) n form = true ↔
      ∃ d ∈ ds, d.form = form ∧ d.name = n := by
  cases form with
  | structural =>
    simp [Represents.hasForm, Items.structDef?, structDefs_items, Heading.name]
  | implementation =>
    simp [Represents.hasForm, Items.implDef?, implDefs_items, Heading.name]

/-- A regular heading is not refused before it takes its place. -/
theorem Regular.structRefusal?_eq_none (h : Regular (ds ++ [d]))
    (hrun : (ds.forM Heading.declare).run new = .ok () t) :
    t.structRefusal? d.token (parentToken d.form d.parent) d.form = none := by
  have hd : d ∈ ds ++ [d] := List.mem_append_right _ (List.mem_singleton_self d)
  refine (represents_closed hrun).structRefusal?_eq_none_iff.2 ⟨h.names d hd, ?_, fun p hp => ?_⟩
  · rw [Bool.eq_false_iff, Ne, hasForm_items]
    rintro ⟨e, he, hform, hname⟩
    have hforms := h.forms
    rw [List.map_append, List.nodup_append] at hforms
    refine hforms.2.2 (e.name, e.form) (List.mem_map_of_mem he) _ (List.mem_singleton_self _) ?_
    rw [hform, hname]
    rfl
  · cases hform : d.form with
    | structural =>
      rw [hform] at hp
      exact h.parents d hd hform p hp
    | implementation =>
      rw [hform] at hp
      cases hp

/-- A regular heading can only be refused for a cycle. -/
theorem Regular.refusal_eq (h : Regular (ds ++ [d]))
    (hrun : (ds.forM Heading.declare).run new = .ok () t) {e : SemanticError} {t' : SymbolTable}
    (hrefused : d.declare.run t = .error e t') :
    e = ⟨.cyclicInheritance d.name, d.token.position⟩ := by
  rw [Heading.declare, run_declareStruct, h.structRefusal?_eq_none hrun] at hrefused
  dsimp only at hrefused
  split at hrefused
  · cases hrefused
    rfl
  · cases hrefused

/-- A heading that is refused leaves the list with a cycle. -/
theorem Regular.not_acyclic (h : Regular (ds ++ [d]))
    (hrun : (ds.forM Heading.declare).run new = .ok () t) {e : SemanticError} {t' : SymbolTable}
    (hrefused : d.declare.run t = .error e t') : ¬ Acyclic (ds ++ [d]) := by
  intro hacyclic
  have hall := run_of_succeeds (h.succeeds_iff.2 hacyclic)
  rw [List.forM_eq_forM, List.forM_append, run_bind_eq_ok] at hall
  obtain ⟨_, _, hbefore, hlast⟩ := hall
  cases hrun.symm.trans hbefore
  obtain ⟨_, haccepted, _⟩ := run_forM_cons_eq_ok.1 hlast
  rw [hrefused] at haccepted
  cases haccepted

/-- A heading names a parent for its own struct only. -/
theorem inherits_append {c p : String} (h : Items.Inherits ((ds ++ [d]).map Heading.item) c p) :
    Items.Inherits (ds.map Heading.item) c p ∨ c = d.name ∧ d.form = .structural := by
  obtain ⟨e, he, hform, hc, hp⟩ := inherits_items.1 h
  rcases List.mem_append.1 he with he | he
  · exact .inl (inherits_items.2 ⟨e, he, hform, hc, hp⟩)
  · rw [List.mem_singleton.1 he] at hc hform
    exact .inr ⟨hc.symm, hform⟩

/-- A heading that closes a cycle is a struct item, and the cycle passes through its struct. -/
theorem closes_of_acyclic (hbefore : Acyclic ds) (hcycle : ¬ Acyclic (ds ++ [d])) :
    d.form = .structural ∧ Relation.TransGen (Links (ds ++ [d])) d.name d.name := by
  rw [acyclic_iff] at hbefore hcycle
  push Not at hcycle
  obtain ⟨n, hcycle⟩ := hcycle
  constructor
  · by_contra hform
    refine hbefore n (Relation.TransGen.mono (fun c p hstep => ?_) n n hcycle)
    exact (inherits_append hstep).resolve_right fun hnew => hform hnew.2
  · have hstart (c p : String) (hstep : Items.Inherits ((ds ++ [d]).map Heading.item) c p) :=
      (inherits_append hstep).imp_right And.left
    rw [transGen_links_self]
    exact (transGen_or_transGen_self hstart hcycle).resolve_left (hbefore n)

/-- What declarations of structs say about cycles. -/
structure ReportsCycles (ds : List Heading) : Prop where
  /-- As many headings are accepted, one after the other, as run in no cycle. -/
  accepted_iff : ∀ k, succeeds ((ds.take k).forM Heading.declare) new = true ↔ Acyclic (ds.take k)
  /-- The first heading that is refused is a struct item that closes a cycle through its struct, and
  the error names it. -/
  refused : ∀ before d after t e t', ds = before ++ d :: after →
    (before.forM Heading.declare).run new = .ok () t → d.declare.run t = .error e t' →
    d.form = .structural ∧ Relation.TransGen (Links (before ++ [d])) d.name d.name ∧
      e = ⟨.cyclicInheritance d.name, d.token.position⟩

/-- Among regular headings, a cycle is reported exactly when it is closed. -/
theorem reportsCycles (ds : List Heading) (h : Regular ds) : ReportsCycles ds := by
  refine ⟨fun k => ?_, fun before d after t e t' hds hrun hrefused => ?_⟩
  · rw [← List.take_append_drop k ds] at h
    exact h.of_append.succeeds_iff
  · rw [hds, List.append_cons] at h
    have hregular := h.of_append
    have hbefore : Acyclic before := by
      apply hregular.of_append.succeeds_iff.1
      rw [succeeds, hrun]
    obtain ⟨hform, hcycle⟩ := closes_of_acyclic hbefore (hregular.not_acyclic hrun hrefused)
    exact ⟨hform, hcycle, hregular.refusal_eq hrun hrefused⟩

/-- Three structs in a cycle, with an impl block before the struct item that closes it. -/
def cyclicHeadings : List Heading :=
  let struct (name : String) := Token.builtin .structId name
  [⟨struct "A", some (struct "B"), .structural⟩, ⟨struct "C", none, .implementation⟩,
    ⟨struct "B", some (struct "C"), .structural⟩, ⟨struct "C", some (struct "A"), .structural⟩]

theorem reportsCycles_of_cyclicHeadings :
    Regular cyclicHeadings ∧ ReportsCycles cyclicHeadings ∧
      succeeds ((cyclicHeadings.take 3).forM Heading.declare) new = true ∧
      succeeds (cyclicHeadings.forM Heading.declare) new = false := by
  have hregular : Regular cyclicHeadings :=
    ⟨by decide +kernel, by decide +kernel, by decide +kernel⟩
  exact ⟨hregular, reportsCycles cyclicHeadings hregular, by decide +kernel, by decide +kernel⟩

end Headings

end StructLang
