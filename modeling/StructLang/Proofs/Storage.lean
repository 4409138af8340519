import StructLang.Proofs.Readings

/-!
# Storage

Values are kept in locals, parameters and attributes.  `Context.Locates` says which of them a token
names, whether or not the body may use it, and `Storage.VisibleFrom` whether it may.

* An identifier that denotes a value names storage that is visible (`Denotes.exists_storage`).
* A private attribute is used only in the impl block of the struct whose struct item declares it
  (`Program.encloses_private_attributes`).  The checker compares the current struct with that of the
  value and asks whether the attribute is marked as inherited, so this rests on the merge: a struct
  marks exactly the attributes that it does not own (`Completion.inherited_iff`).
* What is assigned to, or counted up or down, is visible storage of the right type, or an element of
  the array in it (`Program.writes_to_visible_storage`).
-/

namespace StructLang

open Items SymbolTable

/-! ## Where values are kept -/

/-- Where a value is kept. -/
inductive Storage where
  | localVariable (b : Binding)
  | parameter (b : Binding)
  /-- An attribute of the values of a struct. -/
  | member (holder : Struct) (a : Attr)

namespace Storage

/-- The type that is declared for what is kept. -/
def ty : Storage → Ty
  | localVariable b | parameter b => b.ty
  | member _ a => a.ty

/-- Whether storage may be used under a name in the impl block of a struct. -/
def VisibleFrom (owner : Option String) (name : String) : Storage → Prop
  | localVariable _ | parameter _ => True
  | member holder a => holder.lookup name owner = .visible a

/-- What a link with the given action writes to, with its type: all that is kept there, or an element
of the array that is. -/
inductive Receives (l : Storage) : Action Receiver → Ty → Prop where
  | whole : l.Receives .simple l.ty
  | element {element : Primitive} {position : Expression Receiver} (h : l.ty = .array element) :
      l.Receives (.index position) (.prim element)

end Storage

theorem Struct.lookup_eq_visible_iff {s : Struct} {name : String} {owner : Option String}
    {a : Attr} : s.lookup name owner = .visible a ↔
      s.attributes.get? name = some a ∧
        (a.isPrivate = true → a.inherited = false ∧ owner = some s.name) := by
  rw [lookup]
  cases s.attributes.get? name with
  | none => simp
  | some b =>
    dsimp only
    split
    · rename_i hvisible
      rw [Lookup.visible.injEq, Option.some.injEq]
      refine ⟨fun h => ⟨h, fun hprivate => ?_⟩, And.left⟩
      rw [h, hprivate] at hvisible
      simpa using hvisible
    · rename_i hhidden
      refine iff_of_false (fun h => by cases h) ?_
      rintro ⟨h, hprivate⟩
      apply hhidden
      rw [Option.some.inj h]
      cases hcase : a.isPrivate with
      | false => rfl
      | true =>
        obtain ⟨hmark, hfrom⟩ := hprivate hcase
        simp [hmark, hfrom]

namespace Context

variable {c : Context} {receiver : Option Receiver} {token : Token} {result : Receiver}

/-- The storage that a token names at the head of a chain (`none`) or after a value: a local
variable, else a parameter, else an attribute of the current struct; after a value, an attribute of
its struct. -/
inductive Locates (c : Context) : Option Receiver → Token → Storage → Prop where
  | localVariable {token : Token} {b : Binding} (hkind : token.kind = .objectId)
      (hb : c.method.local? token.lexeme = some b) : c.Locates none token (.localVariable b)
  | parameter {token : Token} {b : Binding} (hkind : token.kind = .objectId)
      (hlocal : c.method.local? token.lexeme = none)
      (hb : c.method.param? token.lexeme = some b) : c.Locates none token (.parameter b)
  | ownAttribute {token : Token} {s : Struct} {a : Attr} (hkind : token.kind = .objectId)
      (hlocal : c.method.local? token.lexeme = none)
      (hparam : c.method.param? token.lexeme = none) (hs : c.current = some s)
      (ha : s.attributes.get? token.lexeme = some a) : c.Locates none token (.member s a)
  | member {token : Token} {ty : Ty} {name : String} {s : Struct} {a : Attr}
      (hkind : token.kind = .objectId) (hname : ty.structName? = some name)
      (hs : c.table.struct? name = some s) (ha : s.attributes.get? token.lexeme = some a) :
      c.Locates (some (.value ty)) token (.member s a)

theorem Locates.kind_eq {l : Storage} (h : c.Locates receiver token l) :
    token.kind = .objectId := by
  cases h <;> assumption

/-- A token names one place at most. -/
theorem Locates.unique {l l' : Storage} (h : c.Locates receiver token l)
    (h' : c.Locates receiver token l') : l = l' := by
  cases h with
  | localVariable _ hb => cases h' <;> simp_all
  | parameter _ hlocal hb => cases h' <;> simp_all
  | ownAttribute _ hlocal hparam hs ha => cases h' <;> simp_all
  | member _ hname hs ha =>
    cases h'
    simp_all

theorem sees_iff {s : Struct} {name : String} {a : Attr} :
    c.Sees s name a ↔ s.lookup name (c.current.map Struct.name) = .visible a :=
  Struct.lookup_eq_visible_iff.symm

/-- An identifier that denotes something names visible storage. -/
theorem Denotes.exists_storage (h : c.Denotes receiver token result)
    (hkind : token.kind = .objectId) :
    ∃ l, c.Locates receiver token l ∧
      l.VisibleFrom (c.current.map Struct.name) token.lexeme ∧ result = .value l.ty := by
  cases h with
  | localVariable _ hb => exact ⟨_, .localVariable hkind hb, trivial, rfl⟩
  | parameter _ hlocal hb => exact ⟨_, .parameter hkind hlocal hb, trivial, rfl⟩
  | ownAttribute _ hlocal hparam hs _ ha =>
    exact ⟨_, .ownAttribute hkind hlocal hparam hs ha.1, sees_iff.1 ha, rfl⟩
  | member _ hname hs ha => exact ⟨_, .member hkind hname hs ha.1, sees_iff.1 ha, rfl⟩
  | structName hnames => exact absurd (hkind ▸ hnames) (by simp [NamesStruct])
  | intLiteral h | strLiteral h | charLiteral h | nil h | self h =>
    rw [hkind] at h
    cases h
  | truth h => rw [hkind] at h; rcases h with h | h <;> cases h

/-- Only an identifier denotes an array or a stored integer. -/
theorem Denotes.kind_eq {ty : Ty} (h : c.Denotes receiver token (.value ty))
    (hty : ty = .prim .int ∨ ∃ element, ty = .array element) : token.kind = .objectId := by
  cases h with
  | localVariable hkind | parameter hkind | ownAttribute hkind | member hkind => exact hkind
  | intLiteral | strLiteral | charLiteral | truth | nil | self => simp at hty

/-- The struct that holds an attribute is registered. -/
theorem Locates.exists_struct? {s : Struct} {a : Attr}
    (h : c.Locates receiver token (.member s a)) :
    (∃ n, c.table.struct? n = some s) ∧ s.attributes.get? token.lexeme = some a := by
  cases h with
  | ownAttribute _ _ _ hs ha =>
    obtain ⟨n, _, hn⟩ := Option.bind_eq_some_iff.1 hs
    exact ⟨⟨n, hn⟩, ha⟩
  | member _ _ hs ha => exact ⟨⟨_, hs⟩, ha⟩

end Context

/-! ## Encapsulation -/

section Origin

variable {items : List Item} {u t : SymbolTable} {n : String} {s : Struct}

/-- An attribute that a declared struct has of its own stands in its struct item. -/
theorem SymbolTable.Represents.exists_attrDef (h : Represents items u) (hitems : Declarable items)
    (huser : Builtin.structs.contains n = false) (hs : u.struct? n = some s) {a : Attr}
    (ha : a ∈ s.attributesBySlot) :
    ∃ d x slot, Item.struct d ∈ items ∧ d.name.lexeme = n ∧ x ∈ d.attributes ∧
      a = x.attr n slot := by
  rw [(h.ownMembers hitems huser hs).laid.attributesBySlot_eq] at ha
  cases hd : structDef? items n with
  | none =>
    rw [hd] at ha
    cases ha
  | some d =>
    rw [hd] at ha
    obtain ⟨i, hi, rfl⟩ := List.mem_mapIdx.1 ha
    obtain ⟨hmem, hname⟩ := (structDef?_eq_some_iff hitems.structNames).1 hd
    exact ⟨d, d.attributes[i], i, mem_structDefs.1 hmem, hname, List.getElem_mem hi, rfl⟩

theorem SymbolTable.Completion.attributesBySlot_builtin (h : Completion u t)
    (hbuiltin : Builtin.structs.contains n = true) (hs : t.struct? n = some s) :
    s.attributesBySlot = [] := by
  obtain ⟨_, ms, hown⟩ := h.holdsOwn_of_builtin hbuiltin hs
  exact hown.laid.attributesBySlot_eq

/-- A struct marks as inherited exactly the attributes that another struct declares. -/
theorem SymbolTable.Completion.inherited_iff (h : Completion u t) (hs : t.struct? n = some s)
    {a : Attr} (ha : a ∈ s.attributesBySlot) : a.inherited = true ↔ a.owner ≠ s.name := by
  cases hn : Builtin.structs.contains n with
  | true =>
    rw [h.attributesBySlot_builtin hn hs] at ha
    cases ha
  | false =>
    obtain ⟨own, hown, _⟩ := h.kept hs
    rw [h.name_eq hs]
    exact ((h.merged hs).mergedFrom h.sound h.rooted_before (.inr hn) hown).marks a ha

end Origin

namespace Program

variable {p : Program} {A : Analysis} {b : Body Unit}

/-- Every attribute of a struct stands in the struct item of its owner, and it is marked if the owner
is another struct. -/
theorem exists_attrDef (h : p.analyze = .ok A) {n name : String} {s : Struct} {a : Attr}
    (hs : A.table.struct? n = some s) (ha : s.attributes.get? name = some a) :
    (a.inherited = true ↔ a.owner ≠ s.name) ∧
    ∃ d x, Item.struct d ∈ p.items ∧ d.name.lexeme = a.owner ∧ x ∈ d.attributes ∧
      a = { x.attr a.owner a.slot with inherited := a.inherited } := by
  obtain ⟨t, hrun, _, rfl⟩ := analyze_eq_ok.1 h
  obtain ⟨u, hrepresents, hitems, hcompletion, _⟩ := completion_of_declare hrun
  rw [Analysis.ofTyped, struct?_markCreated] at hs
  obtain ⟨s₀, hs₀, rfl⟩ := Option.map_eq_some_iff.1 hs
  have hlist : a ∈ s₀.attributesBySlot :=
    (((hcompletion.laid hs₀).attributes.get?_iff name a).1 ha).1
  refine ⟨hcompletion.inherited_iff hs₀ hlist, ?_⟩
  cases hn : Builtin.structs.contains n with
  | true =>
    rw [hcompletion.attributesBySlot_builtin hn hs₀] at hlist
    cases hlist
  | false =>
    -- the attribute comes from an ancestor's own ones, unchanged apart from its slot and its mark
    obtain ⟨o, so, x, _, hso, hx, slot, inherited, rfl⟩ := (hcompletion.merged hs₀).attribute_origin
      hcompletion.sound hcompletion.rooted_before (.inr hn) a hlist
    cases ho : Builtin.structs.contains o with
    | true =>
      have hbuiltin := (hcompletion.completes.struct?_iff o so).2 (.builtin ho hso)
      rw [hcompletion.attributesBySlot_builtin ho hbuiltin] at hx
      cases hx
    | false =>
      obtain ⟨d, y, i, hd, hname, hy, rfl⟩ := hrepresents.exists_attrDef hitems ho hso hx
      exact ⟨d, y, hd, hname, hy, rfl⟩

/-- A private attribute is used in the impl block of its own struct only: wherever a link of an
accepted program names one, at any depth, the body belongs to the struct whose struct item declares
the attribute. -/
theorem encloses_private_attributes (h : p.analyze = .ok A) (hb : b ∈ p.bodies) :
    Nonempty (A.Reading b) ∧ ∀ (r : A.Reading b) before link s v,
      r.block.Contains (.link before link) → link.action.isAccess = true →
      r.context.Locates (before.map Link.result) link.token (.member s v) →
      v.isPrivate = true →
        b.owner = some v.owner ∧ ∃ d x, Item.struct d ∈ p.items ∧ d.name.lexeme = v.owner ∧
          x ∈ d.attributes ∧ v = x.attr v.owner v.slot := by
  refine ⟨exists_reading h hb, fun r before link s v hlink haccess hlocates hprivate => ?_⟩
  have htyped : link.Typed r.context (before.map Link.result) := r.assignment.2.of_contains hlink
  obtain ⟨result, hdenotes⟩ := htyped.exists_denotes haccess
  -- what the rules accept is visible, and it is the attribute that the token names
  obtain ⟨l, hl, hvisible, _⟩ := hdenotes.exists_storage hlocates.kind_eq
  cases hlocates.unique hl
  rw [name_current_of_reading h hb r] at hvisible
  obtain ⟨hunmarked, hfrom⟩ := (Struct.lookup_eq_visible_iff.1 hvisible).2 hprivate
  obtain ⟨⟨n, hs⟩, hv⟩ := hlocates.exists_struct?
  obtain ⟨hmark, hdeclared⟩ := exists_attrDef h hs hv
  rw [hunmarked] at hdeclared
  -- an attribute without the mark is the struct's own
  have howner : v.owner = s.name := by
    by_contra hforeign
    cases hunmarked.symm.trans (hmark.2 hforeign)
  exact ⟨hfrom.trans (congrArg some howner.symm), hdeclared⟩

/-- The body `++x; x = a.x` of a method of `A`. -/
def countingBody : Body Unit :=
  let name (s : String) := Token.builtin .objectId s
  let x : Chain Unit := ⟨⟨name "x", .simple, ()⟩, []⟩
  ⟨some "A", name "f", .onInstance,
    [.expression (.unary (.builtin .plusPlus "++") x ()),
     .assignment x (.builtin .assign "=")
      (.access ⟨⟨name "a", .simple, ()⟩, [⟨name "x", .simple, ()⟩]⟩)]⟩

/-- A struct `A` with a private attribute `x`, whose method `f` counts it up and assigns to it, and
a struct `B` under `A`. -/
def countingItems : List Item :=
  let struct (s : String) := Token.builtin .structId s
  let name (s : String) := Token.builtin .objectId s
  [.struct ⟨struct "A", none, [⟨name "x", .builtin .intType "Int", true⟩]⟩,
   .impl ⟨struct "A", [⟨name "f", .onInstance, [⟨name "a", struct "A"⟩], none, [],
      countingBody.block⟩, ⟨name ".", .constructor, [], none, [], []⟩]⟩,
   .struct ⟨struct "B", some (struct "A"), []⟩,
   .impl ⟨struct "B", [⟨name ".", .constructor, [], none, [], []⟩]⟩]

theorem encloses_private_attributes_of_countingItems :
    let p : Program := ⟨countingItems⟩
    ∃ A, p.analyze = .ok A ∧ countingBody ∈ p.bodies ∧
      ∃ (r : A.Reading countingBody) (link : Link Receiver) (s : Struct) (v : Attr),
        r.block.Contains (.link none link) ∧ link.action.isAccess = true ∧
        r.context.Locates none link.token (.member s v) ∧ v.isPrivate = true ∧
        v.owner = "A" := by
  intro p
  have hok : p.analyze.isOk = true := by decide +kernel
  obtain ⟨A, hA⟩ := exists_of_isOk hok
  have hb : countingBody ∈ p.bodies := .head _
  obtain ⟨⟨r⟩, howner⟩ := encloses_private_attributes hA hb
  have hx : (p.analyze.toOption.bind fun A => (A.table.struct? "A").bind fun s =>
      s.attributes.get? "x").map Attr.isPrivate = some true := by decide +kernel
  have hm : (p.analyze.toOption.bind fun A => A.table.method? (some "A") .onInstance "f").map
      (fun m => (m.local? "x", m.param? "x")) = some (none, none) := by decide +kernel
  rw [hA] at hx hm
  obtain ⟨v, hv, hprivate⟩ := Option.map_eq_some_iff.1 hx
  obtain ⟨s, hs, hv⟩ : ∃ s, A.table.struct? "A" = some s ∧ s.attributes.get? "x" = some v :=
    Option.bind_eq_some_iff.1 hv
  obtain ⟨m, hfound, hnames⟩ := Option.map_eq_some_iff.1 hm
  cases hfound.symm.trans r.found
  obtain ⟨hlocal, hparam⟩ := Prod.mk.inj hnames
  have hcurrent : r.context.current = some s := (current_of_reading hA hb r).trans hs
  have hlink : countingBody.block.Contains (.link none ⟨.builtin .objectId "x", .simple, ()⟩) :=
    ⟨_, .tail _ (.head _), .tail (.single (.head _)) (.head _)⟩
  obtain ⟨before, link, hlink, _, hbefore, hshape⟩ := r.assignment.exists_link hlink
  cases Option.map_eq_none_iff.1 hbefore
  have haccess : link.action.isAccess = true := Link.isAccess_eq_of_map hshape
  have hlocates : r.context.Locates none link.token (.member s v) := by
    rw [Link.token_eq_of_map hshape]
    exact .ownAttribute rfl hlocal hparam hcurrent hv
  have howner := (howner r none link s v hlink haccess hlocates hprivate).1
  exact ⟨A, hA, hb, r, link, s, v, hlink, haccess, hlocates, hprivate,
    (Option.some.inj howner).symm⟩

end Program

/-! ## Writing -/

section Writing

variable {c : Context}

/-- The target of an assignment names storage for values of its type. -/
theorem Link.Typed.exists_storage {receiver : Option Receiver} {link : Link Receiver}
    (h : link.Typed c receiver) (hassignable : link.isAssignable = true) :
    ∃ l, c.Locates receiver link.token l ∧
      l.VisibleFrom (c.current.map Struct.name) link.token.lexeme ∧
      l.Receives link.action link.result.ty := by
  cases h with
  | mk h =>
    cases h with
    | simple hdenotes =>
      obtain ⟨l, hl, hvisible, rfl⟩ := hdenotes.exists_storage (beq_iff_eq.1 hassignable)
      exact ⟨l, hl, hvisible, .whole⟩
    | index hbase =>
      obtain ⟨l, hl, hvisible, heq⟩ :=
        hbase.exists_storage (hbase.kind_eq (.inr ⟨_, rfl⟩))
      exact ⟨l, hl, hvisible, .element (Receiver.value.inj heq).symm⟩
    | call | newInstance | newArray | group => cases hassignable

theorem Context.UnaryGives.eq_int {op : UnaryOperator} {ty result : Ty}
    (h : UnaryGives op ty result) (hop : op ∈ [.increment, .decrement]) : ty = .prim .int := by
  cases h with
  | count => rfl
  | sign hsign =>
    simp only [List.mem_cons, List.not_mem_nil, or_false] at hop
    rcases hop with rfl | rfl <;> simp at hsign
  | not => simp at hop

/-- The operand of an operator that counts up or down names storage for integers. -/
theorem Expression.Typed.exists_storage {operator : Token} {operand : Chain Receiver}
    {result : Receiver} (h : (Expression.unary operator operand result).Typed c)
    (hcounts : operator.kind = .plusPlus ∨ operator.kind = .minusMinus) :
    operand.isSimple = true ∧ ∃ l, c.Locates none operand.head.token l ∧
      l.VisibleFrom (c.current.map Struct.name) operand.head.token.lexeme ∧
      l.ty = .prim .int := by
  cases h with
  | unary hop hsimple hoperand hgives =>
    refine ⟨hsimple, ?_⟩
    -- a literal has a type of its own, so that it is an integer leaves identifiers only
    have hint := hgives.eq_int <| by
      rcases hcounts with hkind | hkind <;> rw [hkind] at hop <;> cases hop <;> decide
    obtain ⟨⟨token, action, value⟩, rest⟩ := operand
    obtain ⟨haction, hrest⟩ := Bool.and_eq_true_iff.1 hsimple
    cases List.isEmpty_iff.1 hrest
    obtain ⟨⟨htyped⟩, hlast⟩ := hoperand
    cases htyped with
    | simple hdenotes =>
      cases hlast
      cases hint
      obtain ⟨l, hl, hvisible, heq⟩ := hdenotes.exists_storage (hdenotes.kind_eq (.inl rfl))
      exact ⟨l, hl, hvisible, (Receiver.value.inj heq).symm⟩
    | call | index | newInstance | newArray | group => cases haction

end Writing

namespace Program

variable {p : Program} {A : Analysis} {b : Body Unit}

/-- Accepted programs write to visible storage of the right type: wherever an assignment stands, its
target names storage that the body may use, and the value fits what the storage, or an element of the
array in it, is declared to hold; and `++` and `--` stand before the name of visible storage for
integers. -/
theorem writes_to_visible_storage (h : p.analyze = .ok A) (hb : b ∈ p.bodies) :
    Nonempty (A.Reading b) ∧ ∀ r : A.Reading b,
      (∀ target token value, r.block.Contains (.sentence (.assignment target token value)) →
        ∃ l ty, r.context.Locates (target.beforeLast.map Link.result) target.last.token l ∧
          l.VisibleFrom b.owner target.last.token.lexeme ∧ l.Receives target.last.action ty ∧
          A.table.isAssignable value.result.ty ty = true) ∧
      ∀ operator operand result,
        r.block.Contains (.expression (.unary operator operand result)) →
        operator.kind = .plusPlus ∨ operator.kind = .minusMinus →
          operand.isSimple = true ∧ ∃ l, r.context.Locates none operand.head.token l ∧
            l.VisibleFrom b.owner operand.head.token.lexeme ∧ l.ty = .prim .int := by
  refine ⟨exists_reading h hb, fun r => ?_⟩
  rw [← name_current_of_reading h hb r]
  refine ⟨fun target token value hsentence => ?_, fun operator operand result hexpression => ?_⟩
  · have htyped : (Sentence.assignment target token value).Typed r.context :=
      r.assignment.2.of_contains hsentence
    have hlast : (Fragment.link target.beforeLast target.last).Typed r.context :=
      r.assignment.2.of_contains
        ((hsentence.of_mem_parts List.mem_cons_self).of_mem_parts target.last_mem_parts)
    cases htyped with
    | assignment hassignable _ _ hvalue =>
      obtain ⟨l, hl, hvisible, hreceives⟩ := Link.Typed.exists_storage hlast hassignable
      exact ⟨l, _, hl, hvisible, hreceives, isAssignable_iff.2 hvalue⟩
  · have htyped : (Expression.unary operator operand result).Typed r.context :=
      r.assignment.2.of_contains hexpression
    exact htyped.exists_storage

theorem writes_to_visible_storage_of_countingItems :
    let p : Program := ⟨countingItems⟩
    ∃ A, p.analyze = .ok A ∧ countingBody ∈ p.bodies ∧ ∃ r : A.Reading countingBody,
      (∃ target token value l ty,
        r.block.Contains (.sentence (.assignment target token value)) ∧
        r.context.Locates (target.beforeLast.map Link.result) target.last.token l ∧
        l.VisibleFrom (some "A") target.last.token.lexeme ∧ l.Receives target.last.action ty ∧
        A.table.isAssignable value.result.ty ty = true) ∧
      ∃ operator operand result l,
        r.block.Contains (.expression (.unary operator operand result)) ∧
        operator.kind = .plusPlus ∧ r.context.Locates none operand.head.token l ∧
        l.ty = .prim .int := by
  intro p
  have hok : p.analyze.isOk = true := by decide +kernel
  obtain ⟨A, hA⟩ := exists_of_isOk hok
  have hb : countingBody ∈ p.bodies := .head _
  obtain ⟨⟨r⟩, hwrites⟩ := writes_to_visible_storage hA hb
  obtain ⟨hassigns, hcounts⟩ := hwrites r
  refine ⟨A, hA, hb, r, ?_, ?_⟩
  · obtain ⟨y, hy, _, hshape⟩ := r.assignment.exists_fragment ⟨_, .tail _ (.head _), .refl⟩
    cases y with
    | sentence s =>
      cases s with
      | assignment target token value =>
        obtain ⟨l, ty, hstorage⟩ := hassigns target token value hy
        exact ⟨target, token, value, l, ty, hy, hstorage⟩
      | conditional _ _ _ elseBranch => cases elseBranch <;> cases hshape
      | block | loop | giveBack | expression => cases hshape
    | expression | chain | link => cases hshape
  · obtain ⟨y, hy, _, hshape⟩ := r.assignment.exists_fragment ⟨_, .head _, .single (.head _)⟩
    cases y with
    | expression e =>
      cases e with
      | unary operator operand result =>
        obtain ⟨rfl, _⟩ := Expression.unary.inj (Fragment.expression.inj hshape)
        obtain ⟨_, l, hl, _, hty⟩ := hcounts _ operand result hy (.inl rfl)
        exact ⟨_, operand, result, l, hy, rfl, hl, hty⟩
      | access | binary => cases hshape
    | sentence | chain | link => cases hshape

end Program

end StructLang
