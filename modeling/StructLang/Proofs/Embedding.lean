import StructLang.Analysis
import StructLang.Proofs.Consolidation
import StructLang.Proofs.Typing

/-!
# Tables within tables

A table may have more structs than another one.  `t.Covers t'` says that every struct of `t` is in
`t'` with the same parent and the same members, and `t.Embeds t'` that nothing else of it changes
but its token and its children.  Whatever depends on some structs only is then the same in both
tables:

* a body that is accepted in `t` is accepted in `t'`, with the same types (`Covers.infer_body`).  The
  rules of the checker ask for structs, and for none that is missing, so they carry over one by one
  (`Covers.within`);
* where `t` is embedded in `t'`, a struct is merged with the same members (`Embeds.merged`,
  `Embeds.completes`).
-/

namespace StructLang

variable {α : Type}

/-! ## Structs and tables -/

/-- The structs agree in their name, their parent and their members, and in whether they are built
in. -/
structure Struct.SameMembers (s s' : Struct) : Prop where
  name : s'.name = s.name
  parent : s'.parent = s.parent
  attributes : s'.attributes = s.attributes
  methods : s'.methods = s.methods
  constructor : s'.constructor = s.constructor
  builtin : s'.builtin = s.builtin

/-- Every struct of the first table has one with the same members in the second one, and the start
method is the same. -/
structure SymbolTable.Covers (t t' : SymbolTable) : Prop where
  structs : ∀ n s, t.struct? n = some s → ∃ s', t'.struct? n = some s' ∧ s.SameMembers s'
  start : ∀ m, t.start = some m → t'.start = some m

namespace SymbolTable.Covers

variable {t t' : SymbolTable}

theorem parent? (h : t.Covers t') {c p : String} (hp : t.parent? c = some p) :
    t'.parent? c = some p := by
  obtain ⟨s, hs, hp⟩ := Option.bind_eq_some_iff.1 hp
  obtain ⟨s', hs', hsame⟩ := h.structs c s hs
  exact Option.bind_eq_some_iff.2 ⟨s', hs', hsame.parent.trans hp⟩

theorem below (h : t.Covers t') {c a : String} (hbelow : t.Below c a) : t'.Below c a :=
  Relation.ReflTransGen.mono (fun _ _ => h.parent?) _ _ hbelow

theorem assignable (h : t.Covers t') {value target : Ty} (hvalue : t.Assignable value target) :
    t'.Assignable value target := by
  cases hvalue with
  | same => exact .same _
  | literal p => exact .literal p
  | nilStruct name => exact .nilStruct name
  | nilArray element => exact .nilArray element
  | upcast hbelow => exact .upcast (h.below hbelow)

end SymbolTable.Covers

/-- The structs differ in nothing but their children and their tokens, which have the same lexeme. -/
def Struct.Resembles (s s' : Struct) : Prop :=
  ∃ (token : Token) (children : NameSet), token.lexeme = s.name ∧ s' = { s with token, children }

theorem Struct.Resembles.sameMembers {s s' : Struct} (h : s.Resembles s') : s.SameMembers s' := by
  obtain ⟨token, children, hname, rfl⟩ := h
  exact ⟨hname, rfl, rfl, rfl, rfl, rfl⟩

/-- Every struct of the first table is in the second one, apart from children and tokens, and so is
the start method. -/
structure SymbolTable.Embeds (t t' : SymbolTable) : Prop where
  structs : ∀ n s, t.struct? n = some s → ∃ s', t'.struct? n = some s' ∧ s.Resembles s'
  start : ∀ m, t.start = some m → t'.start = some m

namespace SymbolTable.Embeds

variable {t t' : SymbolTable} {n : String} {s : Struct}

theorem covers (h : t.Embeds t') : t.Covers t' := by
  refine ⟨fun n s hs => ?_, h.start⟩
  obtain ⟨s', hs', hresembles⟩ := h.structs n s hs
  exact ⟨s', hs', hresembles.sameMembers⟩

theorem parent? (h : t.Embeds t') {c p : String} (hp : t.parent? c = some p) :
    t'.parent? c = some p :=
  h.covers.parent? hp

theorem below (h : t.Embeds t') {c a : String} (hbelow : t.Below c a) : t'.Below c a :=
  h.covers.below hbelow

/-! ## Completion -/

/-- A struct is merged in the same way in a table with more structs. -/
theorem merged (h : t.Embeds t') (hsound : t.Sound) (hsound' : t'.Sound)
    (hrooted : ∀ n, t.contains n = true → t.Rooted n)
    (hrooted' : ∀ n, t'.contains n = true → t'.Rooted n) (hmerged : t.Merged n s) :
    ∃ s', t'.Merged n s' ∧ s.Resembles s' := by
  induction hmerged with
  | builtin hn hs =>
    obtain ⟨s', hs', hresembles⟩ := h.structs _ _ hs
    exact ⟨s', .builtin hn hs', hresembles⟩
  | @user n p own sp s hn hs hp hparent hmerge ih =>
    obtain ⟨_, hs', token, children, htoken, rfl⟩ := h.structs n own hs
    obtain ⟨_, hparent', _, _, _, rfl⟩ := ih
    obtain ⟨_, sp', hp', hsp', hfits, hlaid, hkeeps⟩ :=
      (merged_iff_of_user hsound hrooted hn hs).1 (.user hn hs hp hparent hmerge)
    cases hp.symm.trans hp'
    cases hparent.unique hsp'
    refine ⟨{ s with token, children }, ?_, token, children, ?_, rfl⟩
    · refine (merged_iff_of_user hsound' hrooted' hn hs').2
        ⟨p, _, hp, hparent', hfits, ⟨hlaid.1, hlaid.2, hlaid.3, hlaid.4⟩, ?_⟩
      rw [hkeeps]
    · rw [hkeeps, htoken]
      rfl

/-- A table within another one is still within it when both are completed. -/
theorem completes (h : t.Embeds t') (hsound : t.Sound) (hsound' : t'.Sound)
    (hrooted : ∀ n, t.contains n = true → t.Rooted n)
    (hrooted' : ∀ n, t'.contains n = true → t'.Rooted n) {u u' : SymbolTable} (hu : t.Completes u)
    (hu' : t'.Completes u') : u.Embeds u' := by
  refine ⟨fun n s hs => ?_, fun m hm => ?_⟩
  · obtain ⟨s', hmerged, hresembles⟩ :=
      h.merged hsound hsound' hrooted hrooted' ((hu.struct?_iff n s).1 hs)
    exact ⟨s', (hu'.struct?_iff n s').2 hmerged, hresembles⟩
  · rw [hu.rest] at hm
    rw [hu'.rest]
    exact h.start m hm

end SymbolTable.Embeds

/-! ## Bodies -/

/-- Every rule for one token that holds in `c` holds in `c'`. -/
structure Context.Within (c c' : Context) : Prop where
  assignable : ∀ {value target}, c.table.Assignable value target → c'.table.Assignable value target
  denotes : ∀ {receiver token result},
    c.Denotes receiver token result → c'.Denotes receiver token result
  calls : ∀ {receiver name m}, c.Calls receiver name m → c'.Calls receiver name m
  constructs : ∀ {name params}, c.Constructs name params → c'.Constructs name params
  returnType : c'.method.returnType = c.method.returnType

namespace Context.Within

variable {c c' : Context}

theorem binaryGives (h : c.Within c') {op : BinaryOperator} {left right result : Ty}
    (hgives : c.BinaryGives op left right result) : c'.BinaryGives op left right result := by
  cases hgives with
  | arithmetic hop hleft hright => exact .arithmetic hop hleft hright
  | relational hop hleft hright => exact .relational hop hleft hright
  | logical hop hleft hright => exact .logical hop hleft hright
  | equality hop hcomparable =>
    exact .equality hop (hcomparable.imp h.assignable h.assignable)

end Context.Within

section Within

variable {c c' : Context}

mutual

/-- An assignment that follows the rules in one context follows them in every context that has all
rules of it. -/
theorem Expression.Typed.mono {a : Expression Receiver} (h : a.Typed c)
    (hwithin : c.Within c') : a.Typed c' := by
  cases h with
  | access h => exact .access (Chain.Typed.mono h hwithin)
  | unary hop hsimple h hgives => exact .unary hop hsimple (Chain.Typed.mono h hwithin) hgives
  | binary hop hleft hright hgives =>
    exact .binary hop (Expression.Typed.mono hleft hwithin) (Expression.Typed.mono hright hwithin)
      (hwithin.binaryGives hgives)

theorem Chain.Typed.mono {a : Chain Receiver} (h : a.Typed c)
    (hwithin : c.Within c') : a.Typed c' := by
  cases h with
  | mk hhead hrest => exact .mk (Link.Typed.mono hhead hwithin) (Link.RestTyped.mono hrest hwithin)

theorem Link.RestTyped.mono {receiver : Receiver} {as : List (Link Receiver)}
    (h : Link.RestTyped c receiver as) (hwithin : c.Within c') : Link.RestTyped c' receiver as := by
  cases h with
  | nil => exact .nil
  | cons h hrest => exact .cons (Link.Typed.mono h hwithin) (Link.RestTyped.mono hrest hwithin)

theorem Link.Typed.mono {receiver : Option Receiver} {a : Link Receiver}
    (h : a.Typed c receiver) (hwithin : c.Within c') : a.Typed c' receiver := by
  cases h with
  | mk h => exact .mk (Action.Typed.mono h hwithin)

theorem Action.Typed.mono {receiver : Option Receiver} {token : Token} {a : Action Receiver}
    {result : Receiver} (h : a.Typed c receiver token result) (hwithin : c.Within c') :
    a.Typed c' receiver token result := by
  cases h with
  | simple h => exact .simple (hwithin.denotes h)
  | call hm hargs => exact .call (hwithin.calls hm) (Expression.ArgsTyped.mono hargs hwithin)
  | index hbase h hint =>
    exact .index (hwithin.denotes hbase) (Expression.Typed.mono h hwithin) hint
  | newInstance hparams hargs =>
    exact .newInstance (hwithin.constructs hparams) (Expression.ArgsTyped.mono hargs hwithin)
  | newArray helement h hint => exact .newArray helement (Expression.Typed.mono h hwithin) hint
  | group h => exact .group (Expression.Typed.mono h hwithin)

theorem Expression.ArgsTyped.mono {params : List Binding} {as : List (Expression Receiver)}
    (h : Expression.ArgsTyped c params as) (hwithin : c.Within c') :
    Expression.ArgsTyped c' params as := by
  cases h with
  | nil => exact .nil
  | cons h hassignable hargs =>
    exact .cons (Expression.Typed.mono h hwithin) (hwithin.assignable hassignable)
      (Expression.ArgsTyped.mono hargs hwithin)

end

theorem Sentence.Typed.mono {a : Sentence Receiver} (h : a.Typed c) (hwithin : c.Within c') :
    a.Typed c' := by
  induction h with
  | block _ ih => exact .block ih
  | conditional h hbool _ _ ihthen ihelse =>
    exact .conditional (h.mono hwithin) hbool ihthen ihelse
  | loop h hbool _ ih => exact .loop (h.mono hwithin) hbool ih
  | assignment hlast htarget hvalue hassignable =>
    exact .assignment hlast (htarget.mono hwithin) (hvalue.mono hwithin)
      (hwithin.assignable hassignable)
  | returnNothing hvoid => exact .returnNothing (hwithin.returnType.trans hvoid)
  | returnValue hvoid h hassignable =>
    rw [← hwithin.returnType] at hvoid hassignable
    exact .returnValue hvoid (h.mono hwithin) (hwithin.assignable hassignable)
  | expression h => exact .expression (h.mono hwithin)

theorem Block.infer_mono {b : Block α} {b' : Block Ty} (hwithin : c.Within c')
    (h : b.infer c = .ok b') : b.infer c' = .ok b' := by
  obtain ⟨a, ha, hshape, rfl⟩ := Block.exists_typed h
  exact Block.Assignment.infer_eq ⟨hshape, fun s hs => (ha s hs).mono hwithin⟩

end Within

/-- A body is accepted if it has a method and is accepted as the body of that method. -/
theorem Body.infer_eq_ok {t : SymbolTable} {b : Body Unit} {b' : Body Ty} :
    b.infer t = .ok b' ↔ ∃ m block, t.method? b.owner b.kind b.token.lexeme = some m ∧
      b.block.infer ⟨t, m⟩ = .ok block ∧ b' = ⟨b.owner, b.token, b.kind, block⟩ := by
  rw [Body.infer]
  cases t.method? b.owner b.kind b.token.lexeme with
  | none => simp
  | some m =>
    constructor
    · intro h
      obtain ⟨block, hblock, heq⟩ := bind_eq_ok_iff.1 h
      exact ⟨m, block, rfl, hblock, (Except.ok.inj heq).symm⟩
    · rintro ⟨_, block, hm, hblock, rfl⟩
      cases hm
      exact bind_eq_ok_iff.2 ⟨block, hblock, rfl⟩

namespace SymbolTable.Covers

variable {t t' : SymbolTable}

theorem exists_current (h : t.Covers t') {m : Method} {s : Struct}
    (hs : (Context.mk t m).current = some s) :
    ∃ s', (Context.mk t' m).current = some s' ∧ s.SameMembers s' := by
  obtain ⟨owner, howner, hs⟩ := Option.bind_eq_some_iff.1 hs
  obtain ⟨s', hs', hsame⟩ := h.structs owner s hs
  exact ⟨s', Option.bind_eq_some_iff.2 ⟨owner, howner, hs'⟩, hsame⟩

theorem sees (h : t.Covers t') {m : Method} {s s' : Struct} (hs : s.SameMembers s') {name : String}
    {a : Attr} (hsees : (Context.mk t m).Sees s name a) : (Context.mk t' m).Sees s' name a := by
  refine ⟨hs.attributes.symm ▸ hsees.1, fun hprivate => ?_⟩
  obtain ⟨howner, hcurrent⟩ := hsees.2 hprivate
  obtain ⟨own, hown, hownName⟩ := Option.map_eq_some_iff.1 hcurrent
  obtain ⟨own', hown', hsame⟩ := h.exists_current hown
  rw [hs.name]
  exact ⟨howner, Option.map_eq_some_iff.2 ⟨own', hown', hsame.name.trans hownName⟩⟩

/-- Every rule of a table holds in a table that covers it. -/
theorem within (h : t.Covers t') (m : Method) : (Context.mk t m).Within ⟨t', m⟩ where
  assignable := h.assignable
  denotes hdenotes := by
    cases hdenotes with
    | intLiteral hkind => exact .intLiteral hkind
    | strLiteral hkind => exact .strLiteral hkind
    | charLiteral hkind => exact .charLiteral hkind
    | truth hkind => exact .truth hkind
    | nil hkind => exact .nil hkind
    | self hkind hs hstatic =>
      obtain ⟨s', hs', hsame⟩ := h.exists_current hs
      rw [← hsame.name]
      exact .self hkind hs' hstatic
    | localVariable hkind hb => exact .localVariable hkind hb
    | parameter hkind hlocal hb => exact .parameter hkind hlocal hb
    | ownAttribute hkind hlocal hparam hs hstatic ha =>
      obtain ⟨s', hs', hsame⟩ := h.exists_current hs
      exact .ownAttribute hkind hlocal hparam hs' hstatic (h.sees hsame ha)
    | structName hkind hs =>
      obtain ⟨s', hs', _⟩ := h.structs _ _ hs
      exact .structName hkind hs'
    | member hkind hname hs ha =>
      obtain ⟨s', hs', hsame⟩ := h.structs _ _ hs
      exact .member hkind hname hs' (h.sees hsame ha)
  calls hcalls := by
    cases hcalls with
    | own hs hm hstatic =>
      obtain ⟨s', hs', hsame⟩ := h.exists_current hs
      exact .own hs' (hsame.methods.symm ▸ hm) hstatic
    | onStruct hs hm hstatic =>
      obtain ⟨s', hs', hsame⟩ := h.structs _ _ hs
      exact .onStruct hs' (hsame.methods.symm ▸ hm) hstatic
    | onValue hstruct hs hm =>
      obtain ⟨s', hs', hsame⟩ := h.structs _ _ hs
      exact .onValue hstruct hs' (hsame.methods.symm ▸ hm)
  constructs hconstructs := by
    obtain ⟨s, hs, hroot, rfl⟩ := hconstructs
    obtain ⟨s', hs', hsame⟩ := h.structs _ _ hs
    rw [← hsame.builtin] at hroot
    rw [← hsame.constructor]
    exact ⟨s', hs', hroot, rfl⟩
  returnType := rfl

theorem method? (h : t.Covers t') {owner : Option String} {kind : MethodKind} {name : String}
    {m : Method} (hm : t.method? owner kind name = some m) :
    t'.method? owner kind name = some m := by
  cases owner with
  | none => exact h.start m hm
  | some owner =>
    obtain ⟨s, hs, hm⟩ := Option.bind_eq_some_iff.1 hm
    obtain ⟨s', hs', hsame⟩ := h.structs owner s hs
    refine Option.bind_eq_some_iff.2 ⟨s', hs', ?_⟩
    unfold Struct.method? at hm ⊢
    rw [hsame.constructor, hsame.methods]
    exact hm

/-- A body that is accepted in a table is accepted in a table that covers it, with the same types. -/
theorem infer_body (h : t.Covers t') {b : Body Unit} {b' : Body Ty} (hb : b.infer t = .ok b') :
    b.infer t' = .ok b' := by
  obtain ⟨m, block, hm, hblock, rfl⟩ := Body.infer_eq_ok.1 hb
  exact Body.infer_eq_ok.2 ⟨m, block, h.method? hm, Block.infer_mono (h.within m) hblock, rfl⟩

end SymbolTable.Covers

theorem SymbolTable.Embeds.infer_body {t t' : SymbolTable} (h : t.Embeds t') {b : Body Unit}
    {b' : Body Ty} (hb : b.infer t = .ok b') : b.infer t' = .ok b' :=
  h.covers.infer_body hb

end StructLang
