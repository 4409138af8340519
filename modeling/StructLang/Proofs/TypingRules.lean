import StructLang.Proofs.StateRun
import StructLang.Proofs.Tree
import StructLang.Typing.Context

/-!
# The rules for one token

The typing rules that look at one token, stated as relations, and the functions of the checker that
decide them.

* `SymbolTable.Assignable`: which values may be stored where a type is expected.
* `Context.Denotes`: what a name, a literal or `self` denotes at the head of a chain or after a dot.
* `Context.Calls` and `Context.Constructs`: which method a call means, and which structs can be
  created.
* `Context.UnaryGives` and `Context.BinaryGives`: the operators.

Every decision is stated as `… = .ok x ↔ …`, so it serves in both directions and says that a
relation holds of at most one result.
-/

namespace StructLang

/-! ## Assignability -/

/-- A value of one type may be stored where another type is expected. -/
inductive SymbolTable.Assignable (t : SymbolTable) : Ty → Ty → Prop where
  | same (ty : Ty) : t.Assignable ty ty
  | literal (p : Primitive) : t.Assignable (.literal p) (.prim p)
  | nilStruct (name : String) : t.Assignable .nil (.struct name)
  | nilArray (element : Primitive) : t.Assignable .nil (.array element)
  | upcast {child ancestor : String} (h : t.Below child ancestor) :
      t.Assignable (.struct child) (.struct ancestor)

theorem SymbolTable.isAssignable_iff {t : SymbolTable} {value target : Ty} :
    t.isAssignable value target = true ↔ t.Assignable value target := by
  rw [isAssignable.eq_def, Bool.or_eq_true, beq_iff_eq]
  constructor
  · rintro (rfl | h)
    · exact .same value
    · split at h
      · cases beq_iff_eq.1 h
        exact .literal _
      · exact .nilStruct _
      · exact .nilArray _
      · exact .upcast (isSubtype_iff_below.1 h)
      · cases h
  · intro h
    cases h with
    | same => exact .inl rfl
    | literal p => exact .inr (beq_iff_eq.2 rfl)
    | nilStruct name => exact .inr rfl
    | nilArray element => exact .inr rfl
    | upcast h => exact .inr (isSubtype_iff_below.2 h)

namespace Context

variable {c : Context} {token : Token} {receiver : Option Receiver} {result : Receiver}

/-! ## Accesses -/

/-- The attribute `a` of the struct `s` may be used in the method.  A private one is only known to
methods of the struct that has not inherited it, and only in values of that struct. -/
def Sees (c : Context) (s : Struct) (name : String) (a : Attr) : Prop :=
  s.attributes.get? name = some a ∧
    (a.isPrivate = true → a.inherited = false ∧ c.current.map Struct.name = some s.name)

/-- Kinds of tokens that name a struct: those of no literal, of no identifier and not of `self`. -/
def NamesStruct (kind : TokenKind) : Prop :=
  kind ∉ [.intLiteral, .strLiteral, .charLiteral, .trueLiteral, .falseLiteral, .nilLiteral,
    .selfValue, .objectId]

/-- What a token denotes at the head of a chain (`none`) or after something that a receiver stands
for. -/
inductive Denotes (c : Context) : Option Receiver → Token → Receiver → Prop where
  | intLiteral {token : Token} (hkind : token.kind = .intLiteral) :
      c.Denotes none token (.value (.literal .int))
  | strLiteral {token : Token} (hkind : token.kind = .strLiteral) :
      c.Denotes none token (.value (.literal .str))
  | charLiteral {token : Token} (hkind : token.kind = .charLiteral) :
      c.Denotes none token (.value (.literal .char))
  | truth {token : Token} (hkind : token.kind = .trueLiteral ∨ token.kind = .falseLiteral) :
      c.Denotes none token (.value (.prim .bool))
  | nil {token : Token} (hkind : token.kind = .nilLiteral) : c.Denotes none token (.value .nil)
  | self {token : Token} {s : Struct} (hkind : token.kind = .selfValue) (hs : c.current = some s)
      (hstatic : c.method.isStatic = false) : c.Denotes none token (.value (.struct s.name))
  | localVariable {token : Token} {b : Binding} (hkind : token.kind = .objectId)
      (hb : c.method.local? token.lexeme = some b) : c.Denotes none token (.value b.ty)
  | parameter {token : Token} {b : Binding} (hkind : token.kind = .objectId)
      (hlocal : c.method.local? token.lexeme = none)
      (hb : c.method.param? token.lexeme = some b) : c.Denotes none token (.value b.ty)
  | ownAttribute {token : Token} {s : Struct} {a : Attr} (hkind : token.kind = .objectId)
      (hlocal : c.method.local? token.lexeme = none)
      (hparam : c.method.param? token.lexeme = none) (hs : c.current = some s)
      (hstatic : c.method.isStatic = false) (ha : c.Sees s token.lexeme a) :
      c.Denotes none token (.value a.ty)
  | structName {token : Token} {s : Struct} (hkind : NamesStruct token.kind)
      (hs : c.table.struct? token.lexeme = some s) : c.Denotes none token (.struct token.lexeme)
  | member {token : Token} {ty : Ty} {name : String} {s : Struct} {a : Attr}
      (hkind : token.kind = .objectId) (hname : ty.structName? = some name)
      (hs : c.table.struct? name = some s) (ha : c.Sees s token.lexeme a) :
      c.Denotes (some (.value ty)) token (.value a.ty)

theorem visibleAttribute_eq_ok {s : Struct} :
    c.visibleAttribute s token = .ok result ↔
      ∃ a, c.Sees s token.lexeme a ∧ result = .value a.ty := by
  rw [visibleAttribute, Struct.lookup]
  cases ha : s.attributes.get? token.lexeme with
  | none => simp [Sees, ha]
  | some a =>
    have hsees : c.Sees s token.lexeme a ↔
        (!a.isPrivate || (!a.inherited && c.current.map Struct.name == some s.name)) = true := by
      cases hprivate : a.isPrivate <;> simp [Sees, ha, hprivate]
    have hunique : ∀ b, c.Sees s token.lexeme b → b = a := fun b hb =>
      Option.some.inj (hb.1.symm.trans ha)
    by_cases hvisible : c.Sees s token.lexeme a
    · simp only [hsees.1 hvisible, if_true, Except.ok.injEq]
      constructor
      · rintro rfl
        exact ⟨a, hvisible, rfl⟩
      · rintro ⟨b, hb, rfl⟩
        rw [hunique b hb]
    · simp only [mt hsees.2 hvisible, Bool.false_eq_true, if_false, reduceCtorEq, false_iff]
      rintro ⟨b, hb, _⟩
      exact hvisible (hunique b hb ▸ hb)

theorem memberStruct_eq_ok {ty : Ty} {s : Struct} :
    c.memberStruct ty token = .ok s ↔
      ∃ name, ty.structName? = some name ∧ c.table.struct? name = some s := by
  rw [memberStruct]
  cases ty.structName? with
  | none => simp
  | some name => cases hs : c.table.struct? name <;> simp [hs]

theorem selfValue_eq_ok :
    c.selfValue token = .ok result ↔
      ∃ s, c.current = some s ∧ c.method.isStatic = false ∧ result = .value (.struct s.name) := by
  rw [selfValue.eq_def]
  cases c.current <;> cases c.method.isStatic <;> simp [eq_comm]

theorem identifier_eq_ok :
    c.identifier token = .ok result ↔
      (∃ b, c.method.local? token.lexeme = some b ∧ result = .value b.ty) ∨
      (∃ b, c.method.local? token.lexeme = none ∧ c.method.param? token.lexeme = some b ∧
        result = .value b.ty) ∨
      (∃ s a, c.method.local? token.lexeme = none ∧ c.method.param? token.lexeme = none ∧
        c.current = some s ∧ c.method.isStatic = false ∧ c.Sees s token.lexeme a ∧
        result = .value a.ty) := by
  rw [identifier.eq_def]
  cases c.method.local? token.lexeme with
  | some b => simp [@eq_comm _ _ result]
  | none =>
    cases c.method.param? token.lexeme with
    | some b => simp [@eq_comm _ _ result]
    | none =>
      cases c.current with
      | none => simp
      | some s =>
        cases hcontains : s.attributes.contains token.lexeme with
        | false =>
          have hnone : ∀ a, ¬ c.Sees s token.lexeme a := fun a ha => by
            rw [NameMap.contains_iff.2 ⟨a, ha.1⟩] at hcontains
            cases hcontains
          simp [hnone, hcontains]
        | true =>
          cases c.method.isStatic with
          | true => simp [hcontains]
          | false => simp [hcontains, visibleAttribute_eq_ok]

theorem headAccess_eq_ok : c.headAccess token = .ok result ↔ c.Denotes none token result := by
  constructor
  · intro h
    rw [headAccess.eq_def] at h
    split at h
    case h_1 hkind => cases h; exact .intLiteral hkind
    case h_2 hkind => cases h; exact .strLiteral hkind
    case h_3 hkind => cases h; exact .charLiteral hkind
    case h_4 hkind => cases h; exact .truth (.inl hkind)
    case h_5 hkind => cases h; exact .truth (.inr hkind)
    case h_6 hkind => cases h; exact .nil hkind
    case h_7 hkind =>
      obtain ⟨s, hs, hstatic, rfl⟩ := selfValue_eq_ok.1 h
      exact .self hkind hs hstatic
    case h_8 hkind =>
      obtain ⟨b, hb, rfl⟩ | ⟨b, hlocal, hb, rfl⟩ | ⟨s, a, hlocal, hparam, hs, hstatic, ha, rfl⟩ :=
        identifier_eq_ok.1 h
      · exact .localVariable hkind hb
      · exact .parameter hkind hlocal hb
      · exact .ownAttribute hkind hlocal hparam hs hstatic ha
    case h_9 =>
      split at h
      · rename_i hcontains
        cases h
        obtain ⟨s, hs⟩ := NameMap.contains_iff.1 hcontains
        exact .structName (by simp_all [NamesStruct]) hs
      · cases h
  · intro h
    cases h with
    | intLiteral hkind => simp only [headAccess, hkind]
    | strLiteral hkind => simp only [headAccess, hkind]
    | charLiteral hkind => simp only [headAccess, hkind]
    | truth hkind => rcases hkind with hkind | hkind <;> simp only [headAccess, hkind]
    | nil hkind => simp only [headAccess, hkind]
    | self hkind hs hstatic =>
      simp only [headAccess, hkind]
      exact selfValue_eq_ok.2 ⟨_, hs, hstatic, rfl⟩
    | localVariable hkind hb =>
      simp only [headAccess, hkind]
      exact identifier_eq_ok.2 (.inl ⟨_, hb, rfl⟩)
    | parameter hkind hlocal hb =>
      simp only [headAccess, hkind]
      exact identifier_eq_ok.2 (.inr (.inl ⟨_, hlocal, hb, rfl⟩))
    | ownAttribute hkind hlocal hparam hs hstatic ha =>
      simp only [headAccess, hkind]
      exact identifier_eq_ok.2 (.inr (.inr ⟨_, _, hlocal, hparam, hs, hstatic, ha, rfl⟩))
    | structName hkind hs =>
      have hcontains : c.table.contains token.lexeme = true := NameMap.contains_iff.2 ⟨_, hs⟩
      rw [headAccess.eq_def]
      split
      case h_9 => rw [if_pos hcontains]
      all_goals simp_all [NamesStruct]

theorem memberAccess_eq_ok {before : Receiver} :
    c.memberAccess before token = .ok result ↔ c.Denotes (some before) token result := by
  rw [memberAccess.eq_def]
  constructor
  · intro h
    split at h
    · cases h
    · rename_i hkind
      cases before with
      | struct name => cases h
      | value ty =>
        obtain ⟨s, hmember, hvisible⟩ := bind_eq_ok_iff.1 h
        obtain ⟨name, hname, hs⟩ := memberStruct_eq_ok.1 hmember
        obtain ⟨a, ha, rfl⟩ := visibleAttribute_eq_ok.1 hvisible
        exact .member (not_not.1 hkind) hname hs ha
  · intro h
    cases h with
    | member hkind hname hs ha =>
    rw [if_neg (not_not.2 hkind)]
    exact bind_eq_ok_iff.2 ⟨_, memberStruct_eq_ok.2 ⟨_, hname, hs⟩,
      visibleAttribute_eq_ok.2 ⟨_, ha, rfl⟩⟩

/-- The checker finds out what a token denotes. -/
theorem access_eq_ok : c.access receiver token = .ok result ↔ c.Denotes receiver token result := by
  cases receiver with
  | none => exact headAccess_eq_ok
  | some before => exact memberAccess_eq_ok

theorem Denotes.unique {result' : Receiver} (h : c.Denotes receiver token result)
    (h' : c.Denotes receiver token result') : result = result' :=
  Except.ok.inj ((access_eq_ok.2 h).symm.trans (access_eq_ok.2 h'))

@[simp] theorem requireHead_eq_ok : requireHead receiver token = .ok () ↔ receiver = none := by
  cases receiver <;> simp [requireHead]

/-! ## Calls -/

/-- The method that a call means: of the current struct, of a struct that stands for itself, or of
the struct of a value.  Without an instance at hand only static methods can be called. -/
inductive Calls (c : Context) : Option Receiver → String → Method → Prop where
  | own {name : String} {s : Struct} {m : Method} (hs : c.current = some s)
      (hm : s.methods.get? name = some m)
      (hstatic : c.method.isStatic = true → m.isStatic = true) : c.Calls none name m
  | onStruct {name struct : String} {s : Struct} {m : Method}
      (hs : c.table.struct? struct = some s) (hm : s.methods.get? name = some m)
      (hstatic : m.isStatic = true) : c.Calls (some (.struct struct)) name m
  | onValue {name struct : String} {ty : Ty} {s : Struct} {m : Method}
      (hstruct : ty.structName? = some struct) (hs : c.table.struct? struct = some s)
      (hm : s.methods.get? name = some m) : c.Calls (some (.value ty)) name m

theorem callee_eq_ok {s : Struct} {staticOnly : Bool} :
    c.callee receiver token = .ok (s, staticOnly) ↔
      (receiver = none ∧ c.current = some s ∧ staticOnly = c.method.isStatic) ∨
      (∃ name, receiver = some (.struct name) ∧ c.table.struct? name = some s ∧
        staticOnly = true) ∨
      (∃ ty name, receiver = some (.value ty) ∧ ty.structName? = some name ∧
        c.table.struct? name = some s ∧ staticOnly = false) := by
  rw [callee.eq_def]
  match receiver with
  | none => cases c.current <;> simp [eq_comm]
  | some (.struct name) => cases hs : c.table.struct? name <;> simp [hs, eq_comm]
  | some (.value ty) =>
    rw [bind_eq_ok_iff]
    simp only [memberStruct_eq_ok]
    constructor
    · rintro ⟨s, ⟨name, hname, hs⟩, heq⟩
      cases heq
      exact .inr (.inr ⟨ty, name, rfl, hname, hs, rfl⟩)
    · rintro (⟨h, _⟩ | ⟨_, h, _⟩ | ⟨ty, name, h, hname, hs, rfl⟩)
      · cases h
      · cases h
      · cases h
        exact ⟨s, ⟨name, hname, hs⟩, rfl⟩

theorem calledMethod_eq_ok_iff_callee {m : Method} :
    c.calledMethod receiver token = .ok m ↔
      ∃ s staticOnly, c.callee receiver token = .ok (s, staticOnly) ∧
        s.methods.get? token.lexeme = some m ∧ (staticOnly = true → m.isStatic = true) := by
  rw [calledMethod, bind_eq_ok_iff]
  constructor
  · rintro ⟨⟨s, staticOnly⟩, hcallee, h⟩
    refine ⟨s, staticOnly, hcallee, ?_⟩
    dsimp only at h
    split at h
    · cases h
    · rename_i m' hm
      split at h
      · cases h
      · rename_i hstatic
        cases h
        exact ⟨hm, by simpa using hstatic⟩
  · rintro ⟨s, staticOnly, hcallee, hm, hstatic⟩
    refine ⟨(s, staticOnly), hcallee, ?_⟩
    dsimp only
    rw [hm]
    exact if_neg (by simpa using hstatic)

/-- The checker finds the method that a call means. -/
theorem calledMethod_eq_ok {m : Method} :
    c.calledMethod receiver token = .ok m ↔ c.Calls receiver token.lexeme m := by
  rw [calledMethod_eq_ok_iff_callee]
  constructor
  · rintro ⟨s, staticOnly, hcallee, hm, hstatic⟩
    obtain ⟨rfl, hs, rfl⟩ | ⟨name, rfl, hs, rfl⟩ | ⟨ty, name, rfl, hname, hs, rfl⟩ :=
      callee_eq_ok.1 hcallee
    · exact .own hs hm hstatic
    · exact .onStruct hs hm (hstatic rfl)
    · exact .onValue hname hs hm
  · intro h
    cases h with
    | own hs hm hstatic =>
      exact ⟨_, _, callee_eq_ok.2 (.inl ⟨rfl, hs, rfl⟩), hm, hstatic⟩
    | onStruct hs hm hstatic =>
      exact ⟨_, _, callee_eq_ok.2 (.inr (.inl ⟨_, rfl, hs, rfl⟩)), hm, fun _ => hstatic⟩
    | onValue hstruct hs hm =>
      exact ⟨_, _, callee_eq_ok.2 (.inr (.inr ⟨_, _, rfl, hstruct, hs, rfl⟩)), hm, nofun⟩

theorem Calls.unique {m m' : Method} (h : c.Calls receiver token.lexeme m)
    (h' : c.Calls receiver token.lexeme m') : m = m' :=
  Except.ok.inj ((calledMethod_eq_ok.2 h).symm.trans (calledMethod_eq_ok.2 h'))

@[simp] theorem requireArity_eq_ok {params : List Binding} {args : Nat} :
    requireArity params token args = .ok () ↔ params.length = args := by
  rw [requireArity]
  split <;> simp [*]

/-- Values of a struct can be created from arguments for the given parameters.  Of the built-in
structs only the root can be created; a struct without a constructor takes no arguments. -/
def Constructs (c : Context) (name : String) (params : List Binding) : Prop :=
  ∃ s, c.table.struct? name = some s ∧ (s.builtin = true → name = Builtin.root) ∧
    params = (s.constructor.map Method.params).getD []

theorem Constructs.unique {name : String} {params params' : List Binding}
    (h : c.Constructs name params) (h' : c.Constructs name params') : params = params' := by
  obtain ⟨s, hs, _, rfl⟩ := h
  obtain ⟨s', hs', _, rfl⟩ := h'
  cases hs.symm.trans hs'
  rfl

theorem createdStruct_eq_ok {s : Struct} :
    c.createdStruct token = .ok s ↔
      c.table.struct? token.lexeme = some s ∧ (s.builtin = true → token.lexeme = Builtin.root) := by
  rw [createdStruct]
  cases hs : c.table.struct? token.lexeme with
  | none => simp
  | some s' =>
    dsimp only
    split
    · rename_i hrefused
      simp only [Bool.and_eq_true, bne_iff_ne] at hrefused
      constructor
      · intro h
        cases h
      · rintro ⟨h, hroot⟩
        cases h
        exact absurd (hroot hrefused.1) hrefused.2
    · rename_i haccepted
      simp only [Bool.and_eq_true, bne_iff_ne, not_and, not_not] at haccepted
      rw [Except.ok.injEq, Option.some.injEq]
      exact ⟨fun h => ⟨h, h ▸ haccepted⟩, And.left⟩

/-- The checker finds the parameters for the creation of a value with as many arguments. -/
theorem exists_createdStruct_iff {params : List Binding} {args : Nat} :
    (∃ s, c.createdStruct token = .ok s ∧ constructorParams s token args = .ok params ∧
      params.length = args) ↔ c.Constructs token.lexeme params ∧ params.length = args := by
  simp only [createdStruct_eq_ok]
  constructor
  · rintro ⟨s, ⟨hs, hroot⟩, hparams, hlength⟩
    refine ⟨⟨s, hs, hroot, ?_⟩, hlength⟩
    rw [constructorParams] at hparams
    cases hconstructor : s.constructor with
    | none =>
      rw [hconstructor] at hparams
      dsimp only at hparams
      split at hparams
      · cases hparams; rfl
      · cases hparams
    | some m =>
      rw [hconstructor] at hparams
      cases hparams
      rfl
  · rintro ⟨⟨s, hs, hroot, rfl⟩, hlength⟩
    refine ⟨s, ⟨hs, hroot⟩, ?_, hlength⟩
    rw [constructorParams]
    cases hconstructor : s.constructor with
    | none =>
      rw [hconstructor] at hlength
      exact if_pos hlength.symm
    | some m => rfl

/-! ## Operators -/

@[simp] theorem require_eq_ok {holds : Bool} {mismatch : Mismatch} {place : Position} :
    require holds mismatch place = .ok () ↔ holds = true := by
  rw [require]
  split <;> simp [*]

@[simp] theorem requireAssignable_eq_ok {value target : Ty} {mismatch : Mismatch}
    {place : Position} :
    c.requireAssignable value target mismatch place = .ok () ↔ c.table.Assignable value target := by
  rw [requireAssignable, ← SymbolTable.isAssignable_iff]
  split <;> simp [*]

theorem bind_require_eq_ok {α : Type} {holds : Bool} {mismatch : Mismatch} {place : Position}
    {f : Unit → Except SemanticError α} {a : α} :
    (require holds mismatch place >>= f) = .ok a ↔ holds = true ∧ f () = .ok a := by
  rw [bind_eq_ok_iff]
  exact ⟨fun ⟨_, h, hf⟩ => ⟨require_eq_ok.1 h, hf⟩, fun ⟨h, hf⟩ => ⟨(), require_eq_ok.2 h, hf⟩⟩

/-- What a unary operator gives, by the type of its operand.  Only a stored integer can be counted
up and down; a sign keeps the type of a literal. -/
inductive UnaryGives : UnaryOperator → Ty → Ty → Prop where
  | count {op : UnaryOperator} (hop : op ∈ [.increment, .decrement]) :
      UnaryGives op (.prim .int) (.prim .int)
  | sign {op : UnaryOperator} {ty : Ty} (hop : op ∈ [.plus, .minus]) (hty : ty.isInt = true) :
      UnaryGives op ty ty
  | not {ty : Ty} (hty : ty.isBool = true) : UnaryGives .not ty (.prim .bool)

theorem unaryType_eq_ok (operator : Token) {op : UnaryOperator} {ty result : Ty} :
    unaryType operator op ty = .ok result ↔ UnaryGives op ty result := by
  -- the test for arrays refuses nothing that the tests after it accept
  have hprimitive : ∀ {p}, ty.primitive? = some p → (!ty.isArray) = true := by
    cases ty <;> simp [Ty.primitive?, Ty.isArray]
  constructor
  · intro h
    obtain ⟨_, h⟩ := bind_require_eq_ok.1 h
    cases op
    case increment | decrement =>
      obtain ⟨hliteral, h⟩ := bind_require_eq_ok.1 h
      obtain ⟨hint, h⟩ := bind_require_eq_ok.1 h
      cases h
      have hty : ty = .prim .int := by
        cases ty <;> simp_all [Ty.isInt, Ty.primitive?, Ty.isLiteral]
      rw [hty]
      exact .count (by decide)
    case not =>
      obtain ⟨hbool, h⟩ := bind_require_eq_ok.1 h
      cases h
      exact .not hbool
    case plus | minus =>
      obtain ⟨hint, h⟩ := bind_require_eq_ok.1 h
      cases h
      exact .sign (by decide) hint
  · intro h
    cases h with
    | count hop =>
      simp only [List.mem_cons, List.not_mem_nil, or_false] at hop
      rcases hop with rfl | rfl <;> rfl
    | sign hop hty =>
      refine bind_require_eq_ok.2 ⟨hprimitive (beq_iff_eq.1 hty), ?_⟩
      simp only [List.mem_cons, List.not_mem_nil, or_false] at hop
      rcases hop with rfl | rfl <;> exact bind_require_eq_ok.2 ⟨hty, rfl⟩
    | not hty =>
      exact bind_require_eq_ok.2 ⟨hprimitive (beq_iff_eq.1 hty), bind_require_eq_ok.2 ⟨hty, rfl⟩⟩

theorem UnaryGives.unique {op : UnaryOperator} {ty result result' : Ty}
    (h : UnaryGives op ty result) (h' : UnaryGives op ty result') : result = result' :=
  Except.ok.inj (((unaryType_eq_ok default).2 h).symm.trans ((unaryType_eq_ok default).2 h'))

/-- What a binary operator gives, by the types of its operands.  Two values can be compared for
equality when one of them may be stored where the other is expected. -/
inductive BinaryGives (c : Context) : BinaryOperator → Ty → Ty → Ty → Prop where
  | arithmetic {op : BinaryOperator} {left right : Ty} (hop : op ∈ [.add, .sub, .mul, .div, .mod])
      (hleft : left.isInt = true) (hright : right.isInt = true) :
      c.BinaryGives op left right (.prim .int)
  | relational {op : BinaryOperator} {left right : Ty} (hop : op ∈ [.lt, .le, .gt, .ge])
      (hleft : left.isInt = true) (hright : right.isInt = true) :
      c.BinaryGives op left right (.prim .bool)
  | logical {op : BinaryOperator} {left right : Ty} (hop : op ∈ [.and, .or])
      (hleft : left.isBool = true) (hright : right.isBool = true) :
      c.BinaryGives op left right (.prim .bool)
  | equality {op : BinaryOperator} {left right : Ty} (hop : op ∈ [.eq, .ne])
      (hcomparable : c.table.Assignable left.unliteral right.unliteral ∨
        c.table.Assignable right.unliteral left.unliteral) :
      c.BinaryGives op left right (.prim .bool)

theorem binaryType_eq_ok (operator : Token) {op : BinaryOperator} {left right result : Ty} :
    c.binaryType operator op left right = .ok result ↔ c.BinaryGives op left right result := by
  constructor
  · intro h
    cases op
    case add | sub | mul | div | mod =>
      obtain ⟨hint, hresult⟩ := bind_require_eq_ok.1 h
      cases hresult
      rw [Bool.and_eq_true] at hint
      exact .arithmetic (by decide) hint.1 hint.2
    case lt | le | gt | ge =>
      obtain ⟨hint, hresult⟩ := bind_require_eq_ok.1 h
      cases hresult
      rw [Bool.and_eq_true] at hint
      exact .relational (by decide) hint.1 hint.2
    case and | or =>
      obtain ⟨hbool, hresult⟩ := bind_require_eq_ok.1 h
      cases hresult
      rw [Bool.and_eq_true] at hbool
      exact .logical (by decide) hbool.1 hbool.2
    case eq | ne =>
      obtain ⟨hcomparable, hresult⟩ := bind_require_eq_ok.1 h
      cases hresult
      simp only [Bool.or_eq_true, SymbolTable.isAssignable_iff] at hcomparable
      exact .equality (by decide) hcomparable
  · intro h
    cases h with
    | arithmetic hop hleft hright =>
      have hint : (left.isInt && right.isInt) = true := by rw [hleft, hright]; rfl
      simp only [List.mem_cons, List.not_mem_nil, or_false] at hop
      rcases hop with rfl | rfl | rfl | rfl | rfl <;> exact bind_require_eq_ok.2 ⟨hint, rfl⟩
    | relational hop hleft hright =>
      have hint : (left.isInt && right.isInt) = true := by rw [hleft, hright]; rfl
      simp only [List.mem_cons, List.not_mem_nil, or_false] at hop
      rcases hop with rfl | rfl | rfl | rfl <;> exact bind_require_eq_ok.2 ⟨hint, rfl⟩
    | logical hop hleft hright =>
      have hbool : (left.isBool && right.isBool) = true := by rw [hleft, hright]; rfl
      simp only [List.mem_cons, List.not_mem_nil, or_false] at hop
      rcases hop with rfl | rfl <;> exact bind_require_eq_ok.2 ⟨hbool, rfl⟩
    | equality hop hcomparable =>
      simp only [← SymbolTable.isAssignable_iff, ← Bool.or_eq_true] at hcomparable
      simp only [List.mem_cons, List.not_mem_nil, or_false] at hop
      rcases hop with rfl | rfl <;> exact bind_require_eq_ok.2 ⟨hcomparable, rfl⟩

theorem BinaryGives.unique {op : BinaryOperator} {left right result result' : Ty}
    (h : c.BinaryGives op left right result) (h' : c.BinaryGives op left right result') :
    result = result' :=
  Except.ok.inj (((binaryType_eq_ok default).2 h).symm.trans ((binaryType_eq_ok default).2 h'))

end Context

end StructLang
