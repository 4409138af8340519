import StructLang.Proofs.Readings

/-!
# Static methods

A static method, and the start of a program, runs without an object.  So its body must not need one:
it does not use `self`, what it names by an identifier alone is a variable of its own, and what it
calls without a receiver is static as well (`Body.UsesNoObject`).  Methods that are called on a struct
are static in every body.

The rules for one token say this of one link.  That it holds at any depth is
`Block.Typed.of_contains`, and that it holds of the program's own tree is
`Block.Assignment.exists_link`.
-/

namespace StructLang

open Items SymbolTable

/-! ## Rules -/

namespace Context

variable {c : Context} {receiver : Option Receiver} {token : Token} {result : Receiver}

/-- A static method does not use `self`. -/
theorem Denotes.kind_ne_selfValue (h : c.Denotes receiver token result)
    (hstatic : c.method.isStatic = true) : token.kind ≠ .selfValue := by
  intro hself
  cases h with
  | self _ _ hinstance => cases hstatic.symm.trans hinstance
  | structName hnames => exact absurd (hself ▸ hnames) (by simp [NamesStruct])
  | truth hkind => rcases hkind with hkind | hkind <;> cases hself.symm.trans hkind
  | intLiteral hkind | strLiteral hkind | charLiteral hkind | nil hkind | localVariable hkind
  | parameter hkind | ownAttribute hkind | member hkind => cases hself.symm.trans hkind

/-- An identifier at the head of a chain of a static method names a variable of the method. -/
theorem Denotes.isSome_variable (h : c.Denotes none token result)
    (hstatic : c.method.isStatic = true) (hkind : token.kind = .objectId) :
    (c.method.local? token.lexeme).isSome = true ∨
      (c.method.param? token.lexeme).isSome = true := by
  cases h with
  | localVariable _ hb => exact .inl (Option.isSome_of_eq_some hb)
  | parameter _ _ hb => exact .inr (Option.isSome_of_eq_some hb)
  | ownAttribute _ _ _ _ hinstance => cases hstatic.symm.trans hinstance
  | structName hnames => exact absurd (hkind ▸ hnames) (by simp [NamesStruct])
  | truth hliteral => rcases hliteral with hliteral | hliteral <;> cases hkind.symm.trans hliteral
  | intLiteral hliteral | strLiteral hliteral | charLiteral hliteral | nil hliteral
  | self hliteral => cases hkind.symm.trans hliteral

/-- A token that names a struct denotes it. -/
theorem Denotes.eq_struct (h : c.Denotes receiver token result) (hkind : NamesStruct token.kind) :
    result = .struct token.lexeme := by
  cases h with
  | structName => rfl
  | truth hliteral =>
    rcases hliteral with hliteral | hliteral <;>
      exact absurd (hliteral ▸ hkind) (by simp [NamesStruct])
  | intLiteral hliteral | strLiteral hliteral | charLiteral hliteral | nil hliteral
  | self hliteral | localVariable hliteral | parameter hliteral | ownAttribute hliteral
  | member hliteral => exact absurd (hliteral ▸ hkind) (by simp [NamesStruct])

end Context

/-- Whether an action calls a method. -/
def Action.isCall {α : Type} : Action α → Bool
  | .call _ => true
  | .simple | .index _ | .newInstance _ | .newArray _ | .group _ => false

@[simp] theorem Action.isCall_map {α β : Type} (f : α → β) (action : Action α) :
    (action.map f).isCall = action.isCall := by
  cases action <;> rfl

theorem Link.isCall_eq_of_map {α β : Type} {l : Link α} {l' : Link β}
    (h : l'.map forget = l.map forget) : l'.action.isCall = l.action.isCall := by
  rw [← Action.isCall_map forget, ← Link.action_map, h, Link.action_map, Action.isCall_map]

section Links

variable {c : Context} {receiver : Option Receiver} {link : Link Receiver}

theorem Link.Typed.exists_calls (h : link.Typed c receiver) (hcall : link.action.isCall = true) :
    ∃ m, c.Calls receiver link.token.lexeme m := by
  cases h with
  | mk h =>
    cases h with
    | call hm => exact ⟨_, hm⟩
    | simple | index | newInstance | newArray | group => cases hcall

/-- A link that names a struct hands on the struct. -/
theorem Link.Typed.result_eq_struct (h : link.Typed c receiver)
    (haccess : link.action.isAccess = true) (hkind : Context.NamesStruct link.token.kind) :
    link.result = .struct link.token.lexeme := by
  cases h with
  | mk h =>
    cases h with
    | simple hdenotes => exact hdenotes.eq_struct hkind
    | index hbase => cases hbase.eq_struct hkind
    | call | newInstance | newArray | group => cases haccess

end Links

/-! ## The link before a link -/

section Before

variable {α : Type}

/-- Links stand directly in chains only. -/
theorem Fragment.exists_chain_of_link_mem_parts {x : Fragment α} {before : Option (Link α)}
    {l : Link α} (h : .link before l ∈ x.parts) : ∃ c, x = .chain c := by
  cases x with
  | chain c => exact ⟨c, rfl⟩
  | sentence s => cases s <;> simp [parts, Sentence.parts] at h
  | expression e => cases e <;> simp [parts, Expression.parts] at h
  | link _ l =>
    simp only [parts] at h
    cases haction : l.action <;> simp [haction, Action.parts] at h

theorem Link.before_mem_places {prior : Option (Link α)} {before link : Link α}
    {links : List (Link α)} (h : .link (some before) link ∈ Link.places prior links) :
    prior = some before ∨ ∃ p, .link p before ∈ Link.places prior links := by
  induction links generalizing prior with
  | nil => cases h
  | cons first rest ih =>
    rcases List.mem_cons.1 h with hfirst | hrest
    · exact .inl (Fragment.link.inj hfirst).1.symm
    · rcases ih hrest with hbefore | ⟨p, hp⟩
      · cases hbefore
        exact .inr ⟨prior, List.mem_cons_self⟩
      · exact .inr ⟨p, List.mem_cons_of_mem _ hp⟩

/-- With a link, a body contains the link before it. -/
theorem Block.Contains.before {b : Block α} {before link : Link α}
    (h : b.Contains (.link (some before) link)) : ∃ p, b.Contains (.link p before) := by
  obtain ⟨s, hs, hreaches⟩ := h
  obtain heq | ⟨x, hx, hlink⟩ := Relation.ReflTransGen.cases_tail hreaches
  · cases heq
  · obtain ⟨c, rfl⟩ := Fragment.exists_chain_of_link_mem_parts hlink
    rcases Link.before_mem_places hlink with hnone | ⟨p, hp⟩
    · cases hnone
    · exact ⟨p, s, hs, hx.tail hp⟩

end Before

/-! ## Static bodies -/

/-- The struct has a static method of the given name. -/
def SymbolTable.HasStatic (t : SymbolTable) (struct name : String) : Prop :=
  ∃ s m, t.struct? struct = some s ∧ s.methods.get? name = some m ∧ m.isStatic = true

/-- Nothing in the body needs an object to run on. -/
structure Body.UsesNoObject (t : SymbolTable) (b : Body Unit) : Prop where
  noSelf : ∀ before link, b.block.Contains (.link before link) → link.action.isAccess = true →
    link.token.kind ≠ .selfValue
  /-- An identifier at the head of a chain is a local variable or a parameter. -/
  names : ∀ link, b.block.Contains (.link none link) → link.action.isAccess = true →
    link.token.kind = .objectId →
      ∃ m, t.method? b.owner b.kind b.token.lexeme = some m ∧
        ((m.local? link.token.lexeme).isSome = true ∨ (m.param? link.token.lexeme).isSome = true)
  /-- A call without receiver is to a static method of the struct around the body. -/
  calls : ∀ link, b.block.Contains (.link none link) → link.action.isCall = true →
    ∃ owner, b.owner = some owner ∧ t.HasStatic owner link.token.lexeme

namespace Program

variable {p : Program} {A : Analysis} {b : Body Unit}

/-- The start is the only body of its kind. -/
theorem owner_eq_none_of_start (h : p.analyze = .ok A) (hb : b ∈ p.bodies)
    (hkind : b.kind = .start) : b.owner = none := by
  obtain ⟨t, hrun, _⟩ := analyze_eq_ok.1 h
  obtain ⟨_, _, hitems, _⟩ := completion_of_declare hrun
  obtain ⟨item, hitem, hb⟩ := List.mem_flatMap.1 hb
  cases item with
  | struct d => cases hb
  | impl d =>
    obtain ⟨m, hm, rfl⟩ := List.mem_map.1 hb
    have hadmissible : d.Admissible := hitems.each _ hitem
    exact absurd hkind (hadmissible.methods m hm).1
  | start d => rw [List.mem_singleton.1 hb]

theorem usesNoObject_of_isStatic (h : p.analyze = .ok A) (hb : b ∈ p.bodies)
    (hstatic : b.kind.isStatic = true) : b.UsesNoObject A.table := by
  obtain ⟨r⟩ := exists_reading h hb
  have hmethod : r.context.method.isStatic = true := by
    show r.method.kind.isStatic = true
    rw [(owner_of_reading h hb r).2, hstatic]
  refine ⟨?_, ?_, ?_⟩
  · intro before link hlink haccess
    obtain ⟨before', link', _, htyped, _, hshape⟩ := r.assignment.exists_link hlink
    rw [← Link.isAccess_eq_of_map hshape] at haccess
    obtain ⟨result, hdenotes⟩ := htyped.exists_denotes haccess
    rw [← Link.token_eq_of_map hshape]
    exact hdenotes.kind_ne_selfValue hmethod
  · intro link hlink haccess hkind
    obtain ⟨before', link', _, htyped, hbefore, hshape⟩ := r.assignment.exists_link hlink
    cases Option.map_eq_none_iff.1 hbefore
    rw [← Link.isAccess_eq_of_map hshape] at haccess
    obtain ⟨result, hdenotes⟩ := htyped.exists_denotes haccess
    rw [← Link.token_eq_of_map hshape] at hkind ⊢
    exact ⟨r.method, r.found, hdenotes.isSome_variable hmethod hkind⟩
  · intro link hlink hcall
    obtain ⟨before', link', _, htyped, hbefore, hshape⟩ := r.assignment.exists_link hlink
    cases Option.map_eq_none_iff.1 hbefore
    rw [← Link.isCall_eq_of_map hshape] at hcall
    obtain ⟨m, hcalls⟩ := htyped.exists_calls hcall
    rw [← Link.token_eq_of_map hshape]
    cases hcalls with
    | own hs hm hown =>
      obtain ⟨owner, howner, hs⟩ :=
        Option.bind_eq_some_iff.1 ((current_of_reading h hb r).symm.trans hs)
      exact ⟨owner, howner, _, m, hs, hm, hown hmethod⟩

/-- Static methods and objects are kept apart in accepted programs: the body of a static method, and
the start, uses no object of its own; the start calls nothing without a receiver; and in every body,
what is called on a struct is one of its static methods. -/
theorem keeps_statics_apart (h : p.analyze = .ok A) (hb : b ∈ p.bodies) :
    (b.kind.isStatic = true → b.UsesNoObject A.table) ∧
    (b.kind = .start → ∀ link, b.block.Contains (.link none link) →
      link.action.isCall = false) ∧
    ∀ before link, b.block.Contains (.link (some before) link) → link.action.isCall = true →
      before.action.isAccess = true → Context.NamesStruct before.token.kind →
        A.table.HasStatic before.token.lexeme link.token.lexeme := by
  refine ⟨usesNoObject_of_isStatic h hb, ?_, ?_⟩
  · intro hkind link hlink
    rw [Bool.eq_false_iff]
    intro hcall
    have hstatic : b.kind.isStatic = true := by rw [hkind]; rfl
    obtain ⟨owner, howner, _⟩ := (usesNoObject_of_isStatic h hb hstatic).calls link hlink hcall
    cases howner.symm.trans (owner_eq_none_of_start h hb hkind)
  · intro before link hlink hcall haccess hkind
    obtain ⟨r⟩ := exists_reading h hb
    obtain ⟨first, link', hlink', htyped, hbefore, hshape⟩ := r.assignment.exists_link hlink
    obtain ⟨before', rfl, hsame⟩ := Option.map_eq_some_iff.1 hbefore
    -- the link before stands in the body as well, so its own rule says what it hands on
    obtain ⟨prior, hprior⟩ := hlink'.before
    have hnamed : before'.Typed r.context (prior.map Link.result) :=
      r.assignment.2.of_contains hprior
    rw [← Link.isAccess_eq_of_map hsame] at haccess
    rw [← Link.token_eq_of_map hsame] at hkind ⊢
    have hresult := hnamed.result_eq_struct haccess hkind
    rw [← Link.isCall_eq_of_map hshape] at hcall
    obtain ⟨m, hcalls⟩ := htyped.exists_calls hcall
    rw [← Link.token_eq_of_map hshape]
    rw [Option.map_some, hresult] at hcalls
    cases hcalls with
    | onStruct hs hm hstatic => exact ⟨_, m, hs, hm, hstatic⟩

/-- The body `ret A.f(f(n))` of a static method of `A`. -/
def staticBody : Body Unit :=
  let name (s : String) := Token.builtin .objectId s
  let n : Expression Unit := .access ⟨⟨name "n", .simple, ()⟩, []⟩
  let own : Expression Unit := .access ⟨⟨name "f", .call [n], ()⟩, []⟩
  ⟨some "A", name "f", .static, [.giveBack (.builtin .returnWord "ret")
    (some (.access ⟨⟨.builtin .structId "A", .simple, ()⟩, [⟨name "f", .call [own], ()⟩]⟩))]⟩

/-- A struct `A` with a static method `f`, and a start that calls it. -/
def staticItems : List Item :=
  let struct (s : String) := Token.builtin .structId s
  let name (s : String) := Token.builtin .objectId s
  let int := Token.builtin .intType "Int"
  let one : Expression Unit := .access ⟨⟨.builtin .intLiteral "1", .simple, ()⟩, []⟩
  [.struct ⟨struct "A", none, []⟩,
   .impl ⟨struct "A", [⟨name "f", .static, [⟨name "n", int⟩], some int, [], staticBody.block⟩,
    ⟨name ".", .constructor, [], none, [], []⟩]⟩,
   .start ⟨.builtin .startWord "start", [], [.expression
    (.access ⟨⟨struct "A", .simple, ()⟩, [⟨name "f", .call [one], ()⟩]⟩)]⟩]

theorem keeps_statics_apart_of_staticItems :
    let p : Program := ⟨staticItems⟩
    ∃ A, p.analyze = .ok A ∧ staticBody ∈ p.bodies ∧ staticBody.UsesNoObject A.table ∧
      ∃ before link, staticBody.block.Contains (.link (some before) link) ∧
        link.action.isCall = true ∧ before.action.isAccess = true ∧
        Context.NamesStruct before.token.kind ∧ A.table.HasStatic "A" "f" := by
  intro p
  have hok : p.analyze.isOk = true := by decide +kernel
  obtain ⟨A, hA⟩ := exists_of_isOk hok
  have hb : staticBody ∈ p.bodies := .head _
  obtain ⟨hstatic, _, hcalls⟩ := keeps_statics_apart hA hb
  have hlink : staticBody.block.Contains _ :=
    ⟨_, .head _, .tail (.tail (.single (.head _)) (.head _)) (.tail _ (.head _))⟩
  have hnames : Context.NamesStruct .structId := by simp [Context.NamesStruct]
  exact ⟨A, hA, hb, hstatic rfl, _, _, hlink, rfl, rfl, hnames, hcalls _ _ hlink rfl rfl hnames⟩

end Program

end StructLang
