import StructLang.Proofs.Conformance
import StructLang.Proofs.Typing

/-!
# Receivers of a subtype

What may follow a value of a struct may follow a value of each of its descendants, with the same
types, and what may follow the name of a struct may follow the name of a descendant
(`checkRest_of_isSubtype`).  A private attribute is the exception: it is known through values of its
own struct only.

The receiver matters to the first link alone, and there it answers two questions: what a name
denotes and which method a call means.  `Context.Transports` says that one receiver answers them as
another one does; then a chain is checked alike after both (`Link.checkRest_of_transports`).
-/

namespace StructLang

variable {α : Type} {c : Context}

/-- The link uses a private attribute of the struct. -/
def Link.UsesPrivate (s : Struct) (link : Link α) : Prop :=
  link.action.isAccess = true ∧
    ∃ x, s.attributes.get? link.token.lexeme = some x ∧ x.isPrivate = true

/-! ## From one receiver to another -/

/-- After `r'` a link is given what it is given after `r`. -/
structure Context.Transports (c : Context) (r r' : Receiver) (link : Link α) : Prop where
  denotes : link.action.isAccess = true → ∀ result,
    c.Denotes (some r) link.token result → c.Denotes (some r') link.token result
  calls : ∀ m, c.Calls (some r) link.token.lexeme m → ∃ m', c.Calls (some r') link.token.lexeme m' ∧
    m'.signature = m.signature ∧ m'.returnType = m.returnType

/-- Arguments are checked against the types of the parameters, whatever their names are. -/
theorem Expression.inferArguments_of_types {params params' : List Binding}
    {args : List (Expression α)} {args' : List (Expression Ty)}
    (htypes : params'.map (·.ty) = params.map (·.ty))
    (h : Expression.inferArguments c params args = .ok args') :
    Expression.inferArguments c params' args = .ok args' := by
  induction args generalizing params params' args' with
  | nil =>
    cases params <;> cases params' <;> cases h <;> rfl
  | cons arg args ih =>
    cases params with
    | nil =>
      cases List.map_eq_nil_iff.1 htypes
      exact h
    | cons param params =>
      cases params' with
      | nil => cases htypes
      | cons param' params' =>
        rw [List.map_cons, List.map_cons, List.cons.injEq] at htypes
        rw [inferArguments_cons_eq_ok] at h ⊢
        obtain ⟨arg', rest', harg, hassignable, hrest, rfl⟩ := h
        exact ⟨arg', rest', harg, htypes.1 ▸ hassignable, ih htypes.2 hrest, rfl⟩

theorem Link.infer_of_transports {r r' : Receiver} {link : Link α} {typed : Link Ty × Receiver}
    (htransports : c.Transports r r' link) (h : link.infer c (some r) = .ok typed) :
    link.infer c (some r') = .ok typed := by
  obtain ⟨token, action, before⟩ := link
  obtain ⟨link', result⟩ := typed
  rw [Link.infer_mk_eq_ok] at h ⊢
  obtain ⟨action', haction, rfl⟩ := h
  refine ⟨action', ?_, rfl⟩
  cases action with
  | simple =>
    rw [Action.infer_simple_eq_ok] at haction ⊢
    exact ⟨htransports.denotes rfl result haction.1, haction.2⟩
  | call args =>
    rw [Action.infer_call_eq_ok] at haction ⊢
    obtain ⟨m, args', hm, hlength, hargs, rfl, rfl⟩ := haction
    obtain ⟨m', hm', hsignature, hreturn⟩ := htransports.calls m hm
    refine ⟨m', args', hm', ?_, Expression.inferArguments_of_types hsignature hargs, rfl, ?_⟩
    · have hparams := congrArg List.length hsignature
      unfold Method.signature at hparams
      rw [List.length_map, List.length_map] at hparams
      exact hparams.trans hlength
    · rw [hreturn]
  | index position =>
    rw [Action.infer_index_eq_ok] at haction ⊢
    obtain ⟨element, position', hbase, hrest⟩ := haction
    exact ⟨element, position', htransports.denotes rfl _ hbase, hrest⟩
  | newInstance args =>
    -- this and the links below stand at the head of a chain only
    obtain ⟨_, _, hhead, _⟩ := Action.infer_newInstance_eq_ok.1 haction
    cases hhead
  | newArray dimension =>
    obtain ⟨_, _, hhead, _⟩ := Action.infer_newArray_eq_ok.1 haction
    cases hhead
  | group inner =>
    obtain ⟨_, hhead, _⟩ := Action.infer_group_eq_ok.1 haction
    cases hhead

theorem Link.inferRest_of_transports {r r' : Receiver} {token : Token} {link : Link α}
    {rest : List (Link α)} {typed : List (Link Ty)} (htransports : c.Transports r r' link)
    (h : Link.inferRest c token r (link :: rest) = .ok typed) :
    Link.inferRest c token r' (link :: rest) = .ok typed := by
  rw [Link.inferRest_cons_eq_ok] at h ⊢
  obtain ⟨link', result, rest', hlink, hrest⟩ := h
  exact ⟨link', result, rest', link.infer_of_transports htransports hlink, hrest⟩

/-- A chain that is accepted after one receiver is checked alike after the other: the same types are
stored and answered, and the same structs are collected. -/
theorem Link.checkRest_of_transports {r r' : Receiver} {token : Token} {link : Link (Option Ty)}
    {rest : List (Link (Option Ty))} {created : NameSet} {ty : Ty}
    (htransports : c.Transports r r' link)
    (h : (Link.checkRest c token r (link :: rest) created).answer = .ok ty) :
    Link.checkRest c token r' (link :: rest) created =
      Link.checkRest c token r (link :: rest) created := by
  rw [(Link.checkRest_meets created token r (link :: rest)).answer_eq, map_eq_ok_iff] at h
  obtain ⟨typed, htyped, _⟩ := h
  have htyped' := Link.inferRest_of_transports htransports htyped
  obtain ⟨link', _, rest', _, _, rfl⟩ := Link.inferRest_cons_eq_ok.1 htyped
  rw [Link.checkRest_eq_of_infer htyped, Link.checkRest_eq_of_infer htyped']
  -- the type of the last link does not come from the receiver
  rfl

/-! ## Descendants -/

namespace SymbolTable

variable {u t : SymbolTable} {a d : String} {sa sd : Struct} {method : Method} {link : Link α}

/-- A struct has the attributes of an ancestor under their names. -/
theorem Completion.attribute_of_below (h : Completion u t) (hbelow : t.Below d a)
    (hd : t.struct? d = some sd) (ha : t.struct? a = some sa) {name : String} {x : Attr}
    (hx : sa.attributes.get? name = some x) :
    ∃ inherited, sd.attributes.get? name = some { x with inherited } := by
  rcases (h.conforms hbelow hd ha).attributes with rfl | hprefix
  · exact ⟨x.inherited, hx⟩
  · obtain ⟨hmem, hname⟩ := ((h.laid ha).attributes.get?_iff name x).1 hx
    refine ⟨true, ((h.laid hd).attributes.get?_iff name x.copied).2 ⟨?_, hname⟩⟩
    exact hprefix.subset (List.mem_map_of_mem hmem)

/-- A struct has, under the name of a method of an ancestor, one that stands for it. -/
theorem Completion.method_of_below (h : Completion u t) (hbelow : t.Below d a)
    (hd : t.struct? d = some sd) (ha : t.struct? a = some sa) {name : String} {m : Method}
    (hm : sa.methods.get? name = some m) :
    ∃ m', sd.methods.get? name = some m' ∧ m'.StandsFor m := by
  obtain ⟨hmem, hname⟩ := ((h.laid ha).methods.get?_iff name m).1 hm
  obtain ⟨m', hmem', hstands⟩ := (h.conforms hbelow hd ha).methods m hmem
  refine ⟨m', ?_, hstands⟩
  apply ((h.laid hd).methods.get?_iff name m').2
  exact ⟨hmem', hstands.name.trans hname⟩

theorem Completion.transports_value (h : Completion u t) (hbelow : t.Below d a)
    (hd : t.struct? d = some sd) (ha : t.struct? a = some sa) (hpublic : ¬ link.UsesPrivate sa) :
    Context.Transports ⟨t, method⟩ (.value (.struct a)) (.value (.struct d)) link := by
  refine ⟨?_, ?_⟩
  · intro haccess result hdenotes
    cases hdenotes with
    | @member _ _ _ _ x hkind hname hs hsees =>
      cases hname
      cases ha.symm.trans hs
      obtain ⟨inherited, hx⟩ := h.attribute_of_below hbelow hd ha hsees.1
      refine .member (a := { x with inherited }) hkind rfl hd ⟨hx, ?_⟩
      intro hprivate
      exact absurd ⟨haccess, _, hsees.1, hprivate⟩ hpublic
  · intro m hcalls
    cases hcalls with
    | onValue hstruct hs hm =>
      cases hstruct
      cases ha.symm.trans hs
      obtain ⟨m', hm', hstands⟩ := h.method_of_below hbelow hd ha hm
      exact ⟨m', .onValue rfl hd hm', hstands.signature, hstands.returnType⟩

theorem Completion.transports_struct (h : Completion u t) (hbelow : t.Below d a)
    (hd : t.struct? d = some sd) (ha : t.struct? a = some sa) :
    Context.Transports ⟨t, method⟩ (.struct a) (.struct d) link := by
  refine ⟨?_, ?_⟩
  · intro _ result hdenotes
    cases hdenotes
  · intro m hcalls
    cases hcalls with
    | onStruct hs hm hstatic =>
      cases ha.symm.trans hs
      obtain ⟨m', hm', hstands⟩ := h.method_of_below hbelow hd ha hm
      cases hstands.static hstatic
      exact ⟨m, .onStruct hd hm' hstatic, rfl, rfl⟩

/-- In every method, a chain that is accepted after a value of a struct or after the name of a struct
is checked alike after a descendant, if the first link does not use a private attribute of a value:
the same types are stored and answered, and the same structs are collected. -/
theorem checkRest_of_isSubtype {calls : List Call}
    (hrun : consolidate.run (declared calls) = .ok () t) (hd : t.struct? d = some sd)
    (ha : t.struct? a = some sa) (hsubtype : t.isSubtype d a = true) (method : Method)
    (token : Token) (link : Link (Option Ty)) (rest : List (Link (Option Ty))) (created : NameSet)
    (ty : Ty) :
    (¬ link.UsesPrivate sa →
      (Link.checkRest ⟨t, method⟩ token (.value (.struct a)) (link :: rest) created).answer = .ok ty →
      Link.checkRest ⟨t, method⟩ token (.value (.struct d)) (link :: rest) created =
        Link.checkRest ⟨t, method⟩ token (.value (.struct a)) (link :: rest) created) ∧
    ((Link.checkRest ⟨t, method⟩ token (.struct a) (link :: rest) created).answer = .ok ty →
      Link.checkRest ⟨t, method⟩ token (.struct d) (link :: rest) created =
        Link.checkRest ⟨t, method⟩ token (.struct a) (link :: rest) created) := by
  have h := completion_of_consolidate hrun
  have hbelow := isSubtype_iff_below.1 hsubtype
  refine ⟨?_, ?_⟩
  · intro hpublic
    exact Link.checkRest_of_transports (h.transports_value hbelow hd ha hpublic)
  · exact Link.checkRest_of_transports (h.transports_struct hbelow hd ha)

/-- Calls that declare `A` with a static method, and `B : A`. -/
def inheritedStaticCalls : List Call :=
  let struct (name : String) := Token.builtin .structId name
  let member (name : String) := Token.builtin .objectId name
  [.struct (struct "A") none .structural,
   .struct (struct "A") none .implementation, .method (member ".") .constructor none,
   .method (member "make") .static (some (.builtin .intType "Int")),
   .struct (struct "B") (some (struct "A")) .structural,
   .struct (struct "B") none .implementation, .method (member ".") .constructor none]

theorem checkRest_of_inheritedStaticCalls :
    let make : Link (Option Ty) := ⟨.builtin .objectId "make", .call [], none⟩
    let start : Method := .declare (.builtin .startWord "start") none .start .void 0
    ∃ t sa sb, consolidate.run (declared inheritedStaticCalls) = .ok () t ∧
      t.struct? "A" = some sa ∧ t.struct? "B" = some sb ∧ t.isSubtype "B" "A" = true ∧
      ¬ make.UsesPrivate sa ∧
      (Link.checkRest ⟨t, start⟩ default (.value (.struct "A")) [make] .empty).answer =
        .ok (.prim .int) ∧
      Link.checkRest ⟨t, start⟩ default (.value (.struct "B")) [make] .empty =
        Link.checkRest ⟨t, start⟩ default (.value (.struct "A")) [make] .empty ∧
      (Link.checkRest ⟨t, start⟩ default (.struct "A") [make] .empty).answer = .ok (.prim .int) ∧
      Link.checkRest ⟨t, start⟩ default (.struct "B") [make] .empty =
        Link.checkRest ⟨t, start⟩ default (.struct "A") [make] .empty := by
  intro make start
  let t := stateAfter consolidate (declared inheritedStaticCalls)
  have hrun : consolidate.run (declared inheritedStaticCalls) = .ok () t :=
    run_of_succeeds (by decide +kernel)
  obtain ⟨sa, ha⟩ : ∃ s, t.struct? "A" = some s :=
    Option.isSome_iff_exists.1 (by decide +kernel)
  obtain ⟨sb, hb⟩ : ∃ s, t.struct? "B" = some s :=
    Option.isSome_iff_exists.1 (by decide +kernel)
  have hsubtype : t.isSubtype "B" "A" = true := by decide +kernel
  have hpublic : ¬ make.UsesPrivate sa := by
    intro huses
    cases huses.1
  have hvalue : (Link.checkRest ⟨t, start⟩ default (.value (.struct "A")) [make] .empty).answer =
      .ok (.prim .int) := by
    decide +kernel
  have hstruct : (Link.checkRest ⟨t, start⟩ default (.struct "A") [make] .empty).answer =
      .ok (.prim .int) := by
    decide +kernel
  obtain ⟨hvalues, hstructs⟩ := checkRest_of_isSubtype hrun hb ha hsubtype start default make []
    .empty (.prim .int)
  exact ⟨t, sa, sb, hrun, ha, hb, hsubtype, hpublic, hvalue, hvalues hpublic hvalue, hstruct,
    hstructs hstruct⟩

end SymbolTable

end StructLang
