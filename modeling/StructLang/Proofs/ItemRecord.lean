import StructLang.Proofs.Items

/-!
# The record of a struct as its items define it

The struct item gives a struct its attributes and the impl block its methods and its constructor.
Neither looks at what the other one gave, so the record does not depend on which comes first:
`Struct.ofItems` is the record without its place in the tree, and `ofItems_struct` and
`ofItems_impl` say what one more item makes of it.

* `acceptsAll_attributes` and `acceptsAll_methods` say when the members of an item are accepted.
* `ownMembers_ofItems` gives the members in slot order.
-/

namespace StructLang

/-- The attributes of a struct item, in slot order. -/
def StructDef.attrs (owner : String) (d : StructDef) : List Attr :=
  d.attributes.mapIdx fun i a => a.attr owner i

/-- The methods of an impl block, in slot order. -/
def ImplDef.table (owner : String) (d : ImplDef) : List Method :=
  d.ordinary.mapIdx fun i m => m.method owner i

namespace SymbolTable

variable {s : Struct}

/-! ## Accepting members -/

/-- Attributes are accepted when their names are new. -/
theorem acceptsAll_attributes (l : List AttrDef) :
    AcceptsAll HasAttributeRoom Struct.withAttribute s l ↔
      (∀ a ∈ l, s.attributes.contains a.name.lexeme = false) ∧
        (l.map (·.name.lexeme)).Nodup := by
  induction l generalizing s with
  | nil => simp [AcceptsAll]
  | cons a l ih =>
    have hroom (b : AttrDef) : (s.withAttribute a).attributes.contains b.name.lexeme = false ↔
        b.name.lexeme ≠ a.name.lexeme ∧ s.attributes.contains b.name.lexeme = false := by
      simp [Struct.withAttribute]
    rw [AcceptsAll, ih, HasAttributeRoom]
    simp only [hroom, List.mem_cons, forall_eq_or_imp, forall_and, List.map_cons, List.nodup_cons,
      List.mem_map, not_exists, not_and]
    tauto

/-- Methods are accepted when each one is by itself, there is at most one constructor, and the names
of the others are new. -/
theorem acceptsAll_methods (l : List MethodDef) :
    AcceptsAll AcceptsMethod Struct.withMethod s l ↔
      (∀ m ∈ l, m.kind ≠ .start ∧ m.Distinct) ∧
        s.constructor.toList.length + (l.filter (·.kind = .constructor)).length ≤ 1 ∧
        (∀ m ∈ l.filter (·.kind ≠ .constructor), s.methods.contains m.name.lexeme = false) ∧
        ((l.filter (·.kind ≠ .constructor)).map (·.name.lexeme)).Nodup := by
  induction l generalizing s with
  | nil => simp [AcceptsAll, Option.length_toList_le]
  | cons d l ih =>
    rw [AcceptsAll, ih, AcceptsMethod, HasRoom]
    by_cases hctor : d.kind = .constructor
    · have hadd : s.withMethod d = { s with constructor := some (d.method s.name 0) } :=
        if_pos hctor
      have hlength (k : Nat) : s.constructor.toList.length + (k + 1) ≤ 1 ↔
          s.constructor = none ∧ 1 + k ≤ 1 := by
        cases s.constructor with
        | none =>
          simp only [Option.toList_none, List.length_nil, true_and]
          omega
        | some m => simp
      simp only [hadd, hctor, if_true, List.mem_cons, forall_eq_or_imp, List.filter_cons, ne_eq,
        decide_true, not_true_eq_false, decide_false, Bool.false_eq_true, if_false,
        List.length_cons, Option.toList_some, hlength, List.length_nil, Nat.zero_add]
      tauto
    · have hadd : s.withMethod d = { s with
          methods := s.methods.insert d.name.lexeme (d.method s.name s.nextMethodSlot)
          nextMethodSlot := s.nextMethodSlot + 1 } := if_neg hctor
      simp only [hadd, hctor, if_false, List.mem_cons, forall_eq_or_imp, List.filter_cons, ne_eq,
        decide_false, not_false_eq_true, decide_true, Bool.false_eq_true, if_true, List.map_cons,
        List.nodup_cons, NameMap.contains_insert, Bool.or_eq_false_iff, decide_eq_false_iff_not,
        forall_and, List.mem_map, not_exists, not_and]
      tauto

end SymbolTable

namespace Struct

open SymbolTable

variable {s : Struct} {ms : List Method} {as : List Attr}

/-! ## The members that items give -/

@[simp] theorem name_withAttribute (s : Struct) (a : AttrDef) :
    (s.withAttribute a).name = s.name := rfl

@[simp] theorem name_withMethod (s : Struct) (d : MethodDef) : (s.withMethod d).name = s.name := by
  rw [withMethod]
  split <;> rfl

/-- The attributes of a struct item follow those before, in their order. -/
theorem OwnMembers.withAttributes (h : s.OwnMembers ms as) {l : List AttrDef}
    (hl : AcceptsAll HasAttributeRoom withAttribute s l) :
    (l.foldl withAttribute s).OwnMembers ms
      (as ++ l.mapIdx fun i a => a.attr s.name (as.length + i)) := by
  induction l generalizing s as with
  | nil => simpa using h
  | cons a l ih =>
    have hpush : (s.withAttribute a).OwnMembers ms (as ++ [a.attr s.name as.length]) := by
      rw [← h.laid.nextAttributeSlot]
      refine h.addAttribute (addAttribute_eq_ok.2 ⟨hl.1, rfl⟩)
    have hnext := ih hpush hl.2
    rw [List.mapIdx_cons, List.foldl_cons]
    simpa [Nat.add_assoc, Nat.add_comm 1] using hnext

/-- The methods of an impl block follow those before, in their order. -/
theorem OwnMembers.withMethods (h : s.OwnMembers ms as) {l : List MethodDef}
    (hl : AcceptsAll AcceptsMethod withMethod s l) :
    (l.foldl withMethod s).OwnMembers
      (ms ++ (l.filter (·.kind ≠ .constructor)).mapIdx fun i m => m.method s.name (ms.length + i))
      as := by
  induction l generalizing s ms with
  | nil => simpa using h
  | cons d l ih =>
    obtain ⟨⟨hkind, hroom, _⟩, hrest⟩ := hl
    rw [HasRoom] at hroom
    by_cases hctor : d.kind = .constructor
    · have hadd : s.withMethod d = { s with constructor := some (d.method s.name 0) } :=
        if_pos hctor
      have hreturns : d.returns = .void := by
        rw [MethodDef.returns, returnToken, if_pos hctor]
        rfl
      have hset := h.setConstructor (m := d.method s.name 0) ⟨rfl, hctor, hreturns, rfl⟩
      rw [← hadd] at hset
      rw [List.foldl_cons, List.filter_cons, if_neg (by simp [hctor])]
      simpa using ih hset hrest
    · have hadd : s.withMethod d = { s with
          methods := s.methods.insert d.name.lexeme (d.method s.name s.nextMethodSlot)
          nextMethodSlot := s.nextMethodSlot + 1 } := if_neg hctor
      rw [if_neg hctor] at hroom
      have hpush :=
        h.pushMethod (m := d.method s.name s.nextMethodSlot) hroom rfl ⟨hctor, hkind⟩ rfl
      have hnext := ih (s := s.withMethod d) (hadd ▸ hpush) hrest
      rw [h.laid.nextMethodSlot] at hnext
      rw [List.foldl_cons, List.filter_cons, if_pos (by simp [hctor]), List.mapIdx_cons]
      simpa [Nat.add_assoc, Nat.add_comm 1] using hnext

/-- A struct has a constructor once one has been declared. -/
theorem isSome_constructor_withMethods (l : List MethodDef) :
    (l.foldl withMethod s).constructor.isSome =
      (s.constructor.isSome || l.any (·.kind = .constructor)) := by
  induction l generalizing s with
  | nil => simp
  | cons d l ih =>
    rw [List.foldl_cons, ih, withMethod]
    by_cases hctor : d.kind = .constructor <;> simp [hctor]

/-! ## The record -/

/-- The struct with its struct item. -/
def withStructItem (s : Struct) (d : StructDef) : Struct :=
  d.attributes.foldl withAttribute (s.recordForm .structural)

/-- The struct with its impl block. -/
def withImplBlock (s : Struct) (d : ImplDef) : Struct :=
  d.methods.foldl withMethod (s.recordForm .implementation)

/-- The struct that the items of a name define, without its place in the tree. -/
def ofItems (token : Token) (d? : Option StructDef) (i? : Option ImplDef) : Struct :=
  let s := i?.elim (declare token none).detached (declare token none).detached.withImplBlock
  d?.elim s s.withStructItem

theorem withAttribute_withMethod (s : Struct) (a : AttrDef) (m : MethodDef) :
    (s.withAttribute a).withMethod m = (s.withMethod m).withAttribute a := by
  rw [withMethod, withMethod]
  split <;> rfl

theorem recordForm_withMethod (s : Struct) (m : MethodDef) :
    (s.recordForm .structural).withMethod m = (s.withMethod m).recordForm .structural := by
  rw [withMethod, withMethod]
  split <;> rfl

/-- The two forms can be recorded in either order. -/
theorem withStructItem_withImplBlock (s : Struct) (d : StructDef) (i : ImplDef) :
    (s.withStructItem d).withImplBlock i = (s.withImplBlock i).withStructItem d := by
  have hattributes (l : List AttrDef) (s : Struct) :
      (l.foldl withAttribute s).recordForm .implementation =
        l.foldl withAttribute (s.recordForm .implementation) :=
    (List.foldl_hom (recordForm · .implementation) fun _ _ => rfl).symm
  have hmethod (l : List AttrDef) (m : MethodDef) (s : Struct) :
      (l.foldl withAttribute s).withMethod m = l.foldl withAttribute (s.withMethod m) :=
    (List.foldl_hom (withMethod · m) fun s a => (withAttribute_withMethod s a m).symm).symm
  have hmethods (l : List AttrDef) (s : Struct) :
      i.methods.foldl withMethod (l.foldl withAttribute s) =
        l.foldl withAttribute (i.methods.foldl withMethod s) :=
    List.foldl_hom (l.foldl withAttribute) fun s m => hmethod l m s
  have hform (s : Struct) : i.methods.foldl withMethod (s.recordForm .structural) =
      (i.methods.foldl withMethod s).recordForm .structural :=
    List.foldl_hom (recordForm · .structural) fun s m => recordForm_withMethod s m
  rw [withImplBlock, withStructItem, hattributes, hmethods, withStructItem, withImplBlock, ← hform]
  rfl

theorem ofItems_struct (token : Token) (d : StructDef) (i? : Option ImplDef) :
    (ofItems token none i?).withStructItem d = ofItems token (some d) i? := rfl

theorem ofItems_impl (token : Token) (d? : Option StructDef) (i : ImplDef) :
    (ofItems token d? none).withImplBlock i = ofItems token d? (some i) := by
  cases d? with
  | none => rfl
  | some d => exact withStructItem_withImplBlock _ d i

/-! ## What the record holds -/

/-- Attributes leave the rest of a struct as it is. -/
theorem exists_withAttributes (s : Struct) (l : List AttrDef) : ∃ attributes nextAttributeSlot,
    l.foldl withAttribute s = { s with attributes, nextAttributeSlot } := by
  induction l generalizing s with
  | nil => exact ⟨_, _, rfl⟩
  | cons a l ih =>
    obtain ⟨attributes, slot, heq⟩ := ih (s.withAttribute a)
    exact ⟨attributes, slot, heq⟩

/-- Methods leave the rest of a struct as it is. -/
theorem exists_withMethods (s : Struct) (l : List MethodDef) :
    ∃ methods constructor nextMethodSlot,
      l.foldl withMethod s = { s with methods, constructor, nextMethodSlot } := by
  induction l generalizing s with
  | nil => exact ⟨_, _, _, rfl⟩
  | cons m l ih =>
    obtain ⟨methods, constructor, slot, heq⟩ := ih (s.withMethod m)
    refine ⟨methods, constructor, slot, heq.trans ?_⟩
    rw [withMethod]
    split <;> rfl

section OfItems

variable (token : Token) (d? : Option StructDef) (i? : Option ImplDef)

/-- The record is that of a declared struct, with the members of its items and their forms. -/
theorem exists_ofItems :
    ∃ methods constructor attributes nextMethodSlot nextAttributeSlot,
      ofItems token d? i? = { declare token none with
        methods, constructor, attributes, nextMethodSlot, nextAttributeSlot
        structural := d?.isSome, implemented := i?.isSome } := by
  have himpl : ∃ methods constructor nextMethodSlot, ofItems token none i? =
      { declare token none with
        methods, constructor, nextMethodSlot, implemented := i?.isSome } := by
    cases i? with
    | none => exact ⟨_, _, _, rfl⟩
    | some i => exact exists_withMethods _ i.methods
  obtain ⟨methods, constructor, i, heq⟩ := himpl
  cases d? with
  | none => exact ⟨methods, constructor, _, i, _, heq⟩
  | some d =>
    rw [← ofItems_struct, heq]
    obtain ⟨attributes, j, heq⟩ := exists_withAttributes { declare token none with
      methods, constructor, nextMethodSlot := i, implemented := i?.isSome, structural := true }
      d.attributes
    exact ⟨methods, constructor, attributes, i, j, heq⟩

@[simp] theorem token_ofItems : (ofItems token d? i?).token = token := by
  obtain ⟨_, _, _, _, _, heq⟩ := exists_ofItems token d? i?
  rw [heq]
  rfl

@[simp] theorem name_ofItems : (ofItems token d? i?).name = token.lexeme := by
  rw [name, token_ofItems]

@[simp] theorem structural_ofItems : (ofItems token d? i?).structural = d?.isSome := by
  obtain ⟨_, _, _, _, _, heq⟩ := exists_ofItems token d? i?
  rw [heq]

@[simp] theorem implemented_ofItems : (ofItems token d? i?).implemented = i?.isSome := by
  obtain ⟨_, _, _, _, _, heq⟩ := exists_ofItems token d? i?
  rw [heq]

/-- Without its struct item a struct has no attributes. -/
theorem attributes_ofItems_none : (ofItems token none i?).attributes = .empty := by
  cases i? with
  | none => rfl
  | some i =>
    obtain ⟨_, _, _, heq⟩ := exists_withMethods
      ((ofItems token none none).recordForm .implementation) i.methods
    rw [← ofItems_impl, withImplBlock, heq]
    rfl

/-- Without its impl block a struct has no methods and no constructor. -/
theorem methods_ofItems_none : (ofItems token d? none).methods = .empty ∧
    (ofItems token d? none).constructor = none := by
  cases d? with
  | none => exact ⟨rfl, rfl⟩
  | some d =>
    obtain ⟨_, _, heq⟩ := exists_withAttributes
      ((ofItems token none none).recordForm .structural) d.attributes
    rw [← ofItems_struct, withStructItem, heq]
    exact ⟨rfl, rfl⟩

/-- A struct has a constructor when its impl block has one. -/
theorem isSome_constructor_ofItems :
    (ofItems token d? i?).constructor.isSome =
      i?.any fun i => i.methods.any (·.kind = .constructor) := by
  cases i? with
  | none => rw [(methods_ofItems_none token d?).2]; rfl
  | some i =>
    rw [← ofItems_impl, withImplBlock, isSome_constructor_withMethods]
    show ((ofItems token d? none).constructor.isSome || _) = _
    rw [(methods_ofItems_none token d?).2]
    rfl

@[simp] theorem detached_ofItems : (ofItems token d? i?).detached = ofItems token d? i? := by
  obtain ⟨_, _, _, _, _, heq⟩ := exists_ofItems token d? i?
  rw [heq]
  rfl

variable {token d? i?}

/-- The attributes of a struct item are accepted when their names are distinct. -/
theorem acceptsAll_structItem
    (hs : s.detached = (ofItems token none i?).recordForm .structural) (d : StructDef) :
    AcceptsAll HasAttributeRoom withAttribute s d.attributes ↔
      (d.attributes.map (·.name.lexeme)).Nodup := by
  have hempty : s.attributes = .empty :=
    (congrArg attributes hs).trans (attributes_ofItems_none token i?)
  simp [acceptsAll_attributes, hempty]

/-- The methods of an impl block are accepted when the block is admissible. -/
theorem acceptsAll_implBlock
    (hs : s.detached = (ofItems token d? none).recordForm .implementation) (i : ImplDef) :
    AcceptsAll AcceptsMethod withMethod s i.methods ↔
      (∀ m ∈ i.methods, m.kind ≠ .start ∧ m.Distinct) ∧
        i.constructors.length ≤ 1 ∧ (i.ordinary.map (·.name.lexeme)).Nodup := by
  have hmethods : s.methods = .empty :=
    (congrArg methods hs).trans (methods_ofItems_none token d?).1
  have hconstructor : s.constructor = none :=
    (congrArg Struct.constructor hs).trans (methods_ofItems_none token d?).2
  rw [acceptsAll_methods, hmethods, hconstructor, ImplDef.constructors, ImplDef.ordinary]
  simp

/-- The struct item completes the record of a struct whose form has just been recorded. -/
theorem detached_withAttributes
    (hs : s.detached = (ofItems token none i?).recordForm .structural) (d : StructDef) :
    (d.attributes.foldl withAttribute s).detached = ofItems token (some d) i? := by
  rw [← ofItems_struct, withStructItem, ← hs]
  exact (List.foldl_hom detached fun _ _ => rfl).symm

/-- The impl block completes the record of a struct whose form has just been recorded. -/
theorem detached_withMethods
    (hs : s.detached = (ofItems token d? none).recordForm .implementation) (i : ImplDef) :
    (i.methods.foldl withMethod s).detached = ofItems token d? (some i) := by
  have hmethod (s : Struct) (m : MethodDef) :
      s.detached.withMethod m = (s.withMethod m).detached := by
    rw [withMethod, withMethod]
    split <;> rfl
  rw [← ofItems_impl, withImplBlock, ← hs]
  exact (List.foldl_hom detached hmethod).symm

end OfItems

/-- The members of a struct in slot order are those of its items. -/
theorem ownMembers_ofItems (token : Token) {d? : Option StructDef} {i? : Option ImplDef}
    (hd : ∀ d, d? = some d → d.Admissible) (hi : ∀ i, i? = some i → i.Admissible) :
    (ofItems token d? i?).OwnMembers (i?.elim [] (ImplDef.table token.lexeme))
      (d?.elim [] (StructDef.attrs token.lexeme)) := by
  have himpl : (ofItems token none i?).OwnMembers (i?.elim [] (ImplDef.table token.lexeme)) [] := by
    cases i? with
    | none => exact ownMembers_declare token none
    | some i =>
      have hself : ((declare token none).recordForm .implementation).detached =
          (ofItems token none none).recordForm .implementation := rfl
      have haccepted := (acceptsAll_implBlock hself i).2
        ⟨(hi i rfl).methods, (hi i rfl).constructors, (hi i rfl).names⟩
      have hmembers := ((ownMembers_declare token none).recordForm .implementation).withMethods
        haccepted
      have hname : ((declare token none).recordForm .implementation).name = token.lexeme := rfl
      simp only [hname, List.nil_append, List.length_nil, Nat.zero_add] at hmembers
      exact hmembers
  cases d? with
  | none => exact himpl
  | some d =>
    have hself : ((ofItems token none i?).recordForm .structural).detached =
        (ofItems token none i?).recordForm .structural :=
      congrArg (recordForm · .structural) (detached_ofItems token none i?)
    have haccepted := (acceptsAll_structItem hself d).2 (hd d rfl).attributes
    have hmembers := (himpl.recordForm .structural).withAttributes haccepted
    have hname : ((ofItems token none i?).recordForm .structural).name = token.lexeme :=
      name_ofItems token none i?
    simp only [hname, List.nil_append, List.length_nil, Nat.zero_add] at hmembers
    exact hmembers

end Struct

end StructLang
