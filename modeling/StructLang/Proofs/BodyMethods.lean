import StructLang.Proofs.ItemOrder
import StructLang.Proofs.KnownTypes

/-!
# Bodies and their methods

A body is checked against the method that the completed table holds under the owner, the kind and the
name of the body.  Between the declaration of the method and the check the table is completed, which
puts inherited methods beside the declared ones and gives them other slots.  Still the method that is
found is the one that the definition around the body declares (`Represents.exists_method?`), so every
body has a method, and accepted bodies come out as they stand in the source.
-/

namespace StructLang

open Items SymbolTable

/-! ## What a definition declares -/

/-- The method is the one that a definition in the impl block of a struct declares. -/
structure MethodDef.Declares (d : MethodDef) (owner : String) (m : Method) : Prop where
  token : m.token = d.name
  owner : m.owner = some owner
  kind : m.kind = d.kind
  params : m.params = d.params.map fun v => ⟨v.name, Ty.ofName v.ty.lexeme⟩
  /-- A constructor returns nothing, and so does a method without a type. -/
  returnType : m.returnType = if d.kind = .constructor then .void
    else d.returnType.elim .void fun token => Ty.ofName token.lexeme
  locals : m.locals = d.locals.map fun v => ⟨v.name, Ty.ofName v.ty.lexeme⟩

theorem eq_singleton_of_mem {α : Type} {l : List α} {a : α} (hlength : l.length ≤ 1) (ha : a ∈ l) :
    l = [a] := by
  obtain ⟨b, rfl⟩ := List.length_eq_one_iff.1 (le_antisymm hlength (List.length_pos_of_mem ha))
  rw [List.mem_singleton.1 ha]

namespace Struct

variable {s : Struct}

/-- The last constructor counts. -/
theorem constructor_withMethods (l : List MethodDef) :
    (l.foldl withMethod s).constructor =
      ((l.filter (·.kind = .constructor)).getLast?.map (·.method s.name 0)).or s.constructor := by
  induction l generalizing s with
  | nil => rfl
  | cons d l ih =>
    rw [List.foldl_cons, ih, name_withMethod, withMethod, List.filter_cons]
    by_cases hctor : d.kind = .constructor
    · simp only [hctor, if_true, decide_true, List.getLast?_cons]
      cases (l.filter (·.kind = .constructor)).getLast? <;> rfl
    · simp [hctor]

/-- The constructor of a struct is that of its impl block. -/
theorem constructor_ofItems (token : Token) (d? : Option StructDef) {i : ImplDef}
    (hi : i.Admissible) {m : MethodDef} (hm : m ∈ i.methods) (hctor : m.kind = .constructor) :
    (ofItems token d? (some i)).constructor = some (m.method token.lexeme 0) := by
  have honly : i.methods.filter (·.kind = .constructor) = [m] :=
    eq_singleton_of_mem hi.constructors (List.mem_filter.2 ⟨hm, by simpa using hctor⟩)
  have hname : ((ofItems token d? none).recordForm .implementation).name = token.lexeme :=
    name_ofItems token d? none
  rw [← ofItems_impl, withImplBlock, constructor_withMethods, honly, hname]
  rfl

end Struct

/-! ## The methods of a program -/

namespace SymbolTable.Represents

variable {items : List Item} {u t : SymbolTable}

/-- The completed table holds the methods of an impl block as they are defined, apart from their
slots. -/
theorem exists_method? (h : Represents items u) (hitems : Declarable items)
    (hcompletion : Completion u t) {d : ImplDef} (hd : Item.impl d ∈ items) {m : MethodDef}
    (hm : m ∈ d.methods) :
    ∃ slot, t.method? (some d.name.lexeme) m.kind m.name.lexeme =
      some (m.method d.name.lexeme slot) := by
  have hdef : implDef? items d.name.lexeme = some d :=
    (implDef?_eq_some_iff hitems.implNames).2 ⟨mem_implDefs.2 hd, rfl⟩
  have hnames : Names items d.name.lexeme := .inr (List.mem_map.2 ⟨d, mem_implDefs.2 hd, rfl⟩)
  have huser := h.arranged.user _ hnames
  obtain ⟨s, hs⟩ := contains_iff_struct?.1
    ((hcompletion.contains_eq _).trans ((h.arranged.contains _).2 (.inr hnames)))
  have hadmissible := hitems.admissible_impl hdef
  have hmethod : t.method? (some d.name.lexeme) m.kind m.name.lexeme =
      s.method? m.kind m.name.lexeme := by
    rw [SymbolTable.method?, hs]
    rfl
  rw [hmethod]
  by_cases hctor : m.kind = .constructor
  · obtain ⟨own, hown, hkept⟩ := hcompletion.kept hs
    have hlexeme : own.token.lexeme = d.name.lexeme := h.sound.registry.name_eq hown
    have hrecord : own.detached.constructor = some (m.method d.name.lexeme 0) := by
      rw [h.record _ own huser hown, hdef, Struct.constructor_ofItems _ _ hadmissible hm hctor,
        hlexeme]
    rw [hctor, hkept]
    exact ⟨0, hrecord⟩
  · obtain ⟨_, _, own, _, _, hown, _, hlaid⟩ := hcompletion.over_parent huser hs
    have hmembers := h.ownMembers hitems huser hown
    rw [hdef] at hmembers
    have hordinary : m ∈ d.ordinary := List.mem_filter.2 ⟨hm, by simpa using hctor⟩
    obtain ⟨i, hi⟩ := List.mem_iff_getElem?.1 hordinary
    have htable : m.method d.name.lexeme i ∈ d.table d.name.lexeme :=
      ImplDef.mem_table.2 ⟨i, m, hi, rfl⟩
    rw [hmembers.laid.methodsBySlot_eq] at hlaid
    obtain ⟨slot, hslot⟩ := Method.exists_mem_layout_of_own hmembers.laid.methods.nodup htable
    have hget : s.methods.get? m.name.lexeme = some (m.method d.name.lexeme slot) :=
      (hlaid.methods.get?_iff _ _).2 ⟨hslot, rfl⟩
    have hlookup : s.method? m.kind m.name.lexeme = s.methods.get? m.name.lexeme := by
      rw [Struct.method?.eq_def]
      split
      · contradiction
      · rfl
    exact ⟨slot, hlookup.trans hget⟩

theorem method?_start (h : Represents items u) (hitems : Declarable items)
    (hcompletion : Completion u t) {d : StartDef} (hd : Item.start d ∈ items) :
    t.method? none .start d.token.lexeme = some d.method := by
  have honly : startDefs items = [d] := eq_singleton_of_mem hitems.starts (mem_startDefs.2 hd)
  show t.start = some d.method
  rw [hcompletion.completes.rest, h.start, honly]
  rfl

end SymbolTable.Represents

/-! ## Bodies -/

/-- What a body is of: its owner, its token and its kind. -/
def Body.head {α : Type} (b : Body α) : Option String × Token × MethodKind :=
  (b.owner, b.token, b.kind)

/-- A body with a method in a closed table is not refused for a gap in the table. -/
theorem Body.isGap_of_check {t : SymbolTable} (hclosed : t.Closed) {b : Body Unit} {m : Method}
    (hm : t.method? b.owner b.kind b.token.lexeme = some m) {created : NameSet} {e : SemanticError}
    (he : (b.check t).run created = .error e) : e.cause.isGap = false := by
  have hrefused : (b.block.blank.check ⟨t, m⟩ .empty).answer = .error e := by
    rw [Body.check, hm] at he
    dsimp only at he
    rcases hend : b.block.blank.check ⟨t, m⟩ .empty with ⟨block, names, answer⟩
    rw [hend] at he
    cases answer with
    | ok a => cases he
    | error e' =>
      cases he
      rfl
  exact Block.isGap_of_check (hclosed.context hm) hrefused

namespace Program

variable {p : Program} {t : SymbolTable}

/-- The table of a program is the completion of one that represents its items. -/
theorem completion_of_declare (hrun : p.declare.run new = .ok () t) :
    ∃ u, Represents p.items u ∧ Declarable p.items ∧ Completion u t ∧ u.StoresAwaited := by
  obtain ⟨⟨⟩, u, hitems, hlast⟩ := run_bind_eq_ok.1 hrun
  have h := represents_of_run hitems
  obtain ⟨hcomplete, hmerges, hcompletes⟩ := (consolidate_eq_ok h.sound h.consolidated).1 hlast
  have hreach := (Moves.forM (Call.moves_item Call.moves) p.items).of_ok hitems
  exact ⟨u, h, (exists_run_items p.items).1 ⟨u, hitems⟩, ⟨h.sound, hcomplete, hmerges, hcompletes⟩,
    storesAwaited_new.reaches hreach⟩

end Program

end StructLang
