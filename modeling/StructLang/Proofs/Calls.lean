import StructLang.Analysis
import StructLang.Proofs.Consolidation

/-!
# Tables that calls make

A caller fills a table by calls, one for every declaration, and may go on after a call that fails.
`declared` is the table after a list of calls, whatever their outcomes.  It is `Sound`
(`sound_declared`), and it has not been completed.  The items of a program are declared by calls
too, so what every call keeps, an item keeps (`Call.moves_item`).

`history` reads the members of a struct off the calls: they are the tokens of the accepted calls, in
their order.  `tokens_declared` says that the slots number the members in this order.
-/

namespace StructLang

/-! ## Calls -/

/-- A call that declares something. -/
inductive Call where
  | struct (token : Token) (parent : Option Token) (form : Form)
  | method (token : Token) (kind : MethodKind) (returnType : Option Token)
  | param (token type : Token)
  | var (token type : Token) (isPrivate : Bool)
  | close

namespace Call

/-- What a call does. -/
def run : Call → Declaring Unit
  | struct token parent form => SymbolTable.declareStruct token parent form
  | method token kind returnType => SymbolTable.declareMethod token kind returnType
  | param token type => SymbolTable.declareParam token type
  | var token type isPrivate => SymbolTable.declareVar token type isPrivate
  | close => SymbolTable.closeScope

theorem moves (call : Call) : Moves SymbolTable.Step call.run := by
  cases call with
  | struct token parent form => exact SymbolTable.moves_declareStruct token parent form
  | method token kind returnType => exact SymbolTable.moves_declareMethod token kind returnType
  | param token type => exact SymbolTable.moves_declareParam token type
  | var token type isPrivate => exact SymbolTable.moves_declareVar token type isPrivate
  | close => exact SymbolTable.moves_closeScope

section Items

variable {r : SymbolTable → SymbolTable → Prop} (hcall : ∀ call : Call, Moves r call.run)

include hcall

/-- What every call does, the declaration of a method does. -/
theorem moves_methodDef (impl : Token) (d : MethodDef) : Moves r (d.declare impl) := by
  rw [MethodDef.declare]
  split
  · exact fun _ => .refl
  · apply Moves.bind (hcall (.method d.name d.kind d.returnType))
    intro _
    apply Moves.bind (Moves.forM (fun p : VarDef => hcall (.param p.name p.ty)) d.params)
    intro _
    exact Moves.forM (fun v : VarDef => hcall (.var v.name v.ty false)) d.locals

/-- What every call does, the declaration of an item does. -/
theorem moves_item (item : Item) : Moves r item.declare := by
  have hclose (_ : PUnit) : Moves r SymbolTable.closeScope := hcall .close
  cases item with
  | struct d =>
    apply Moves.bind (hcall (.struct d.name d.parent .structural))
    intro _
    refine Moves.bind (Moves.forM ?_ d.attributes) hclose
    exact fun a => hcall (.var a.name a.ty a.isPrivate)
  | impl d =>
    apply Moves.bind (hcall (.struct d.name none .implementation))
    intro _
    exact Moves.bind (Moves.forM (moves_methodDef hcall d.name) d.methods) hclose
  | start d =>
    apply Moves.bind (hcall (.method d.token .start none))
    intro _
    refine Moves.bind (Moves.forM ?_ d.locals) hclose
    exact fun v => hcall (.var v.name v.ty false)

end Items

end Call

namespace SymbolTable

variable {t t' : SymbolTable} {n : String} {s s' : Struct}

/-- The table after some calls from `t` on. -/
def after (t : SymbolTable) (calls : List Call) : SymbolTable :=
  calls.foldl (fun t call => stateAfter call.run t) t

/-- The table that calls make. -/
def declared (calls : List Call) : SymbolTable := new.after calls

theorem Step.consolidated_eq (h : Step t t') : t'.consolidated = t.consolidated := by
  cases h with
  | note token => exact consolidated_noteType t token
  | placed hfree | misplaced hfree =>
    have hne := fun p hp => ((structRefusal?_eq_none_iff.1 hfree).2.2 p hp).2
    show (t.place _ _ _).consolidated = _
    rw [place_eq hne]
  | addedBinding =>
    rw [setOpenMethod]
    split <;> rfl
  | _ => rfl

theorem consolidated_eq_of_reaches (h : Relation.ReflTransGen Step t t') :
    t'.consolidated = t.consolidated := by
  induction h with
  | refl => rfl
  | tail _ hstep ih => exact hstep.consolidated_eq.trans ih

theorem Sound.after (h : t.Sound) (calls : List Call) : (t.after calls).Sound := by
  induction calls generalizing t with
  | nil => exact h
  | cons call calls ih => exact ih (h.reaches (call.moves t))

theorem sound_declared (calls : List Call) : (declared calls).Sound := sound_new.after calls

theorem consolidated_after (t : SymbolTable) (calls : List Call) :
    (t.after calls).consolidated = t.consolidated := by
  induction calls generalizing t with
  | nil => rfl
  | cons call calls ih => exact (ih _).trans (consolidated_eq_of_reaches (call.moves t))

theorem consolidated_declared (calls : List Call) : (declared calls).consolidated = false :=
  consolidated_after new calls

/-! ## The order of declarations -/

end SymbolTable

/-- The members of a struct that are numbered. -/
inductive MemberSort where
  | methods
  | attributes

/-- The tokens of the members of a struct, in slot order. -/
def Struct.tokens (s : Struct) : MemberSort → List Token
  | .methods => s.methodsBySlot.map (·.token)
  | .attributes => s.attributesBySlot.map (·.token)

theorem Struct.Laid.tokens_eq {s : Struct} {ms : List Method} {as : List Attr} (h : s.Laid ms as)
    (sort : MemberSort) :
    s.tokens sort = match sort with
      | .methods => ms.map (·.token)
      | .attributes => as.map (·.token) := by
  cases sort with
  | methods => rw [tokens, h.methodsBySlot_eq]
  | attributes => rw [tokens, h.attributesBySlot_eq]

/-- The tokens after a method has been added to a struct. -/
theorem Struct.OwnMembers.tokens_addMethod {s s' : Struct} {ms : List Method} {as : List Attr}
    (h : s.OwnMembers ms as) {token : Token} {kind : MethodKind} {ty : Ty} (hkind : kind ≠ .start)
    (hadd : s.addMethod token kind ty = .ok s') (sort : MemberSort) :
    s'.tokens sort = s.tokens sort ++ match sort with
      | .methods => if kind = .constructor then [] else [token]
      | .attributes => [] := by
  rw [(h.addMethod hkind hadd).laid.tokens_eq, h.laid.tokens_eq]
  cases sort with
  | methods =>
    by_cases hctor : kind = .constructor
    · simp [hctor]
    · simp [hctor, Method.declare]
  | attributes => simp

/-- The tokens after an attribute has been added to a struct. -/
theorem Struct.OwnMembers.tokens_addAttribute {s s' : Struct} {ms : List Method} {as : List Attr}
    (h : s.OwnMembers ms as) {token : Token} {ty : Ty} {isPrivate : Bool}
    (hadd : s.addAttribute token ty isPrivate = .ok s') (sort : MemberSort) :
    s'.tokens sort = s.tokens sort ++ match sort with
      | .methods => []
      | .attributes => [token] := by
  rw [(h.addAttribute hadd).laid.tokens_eq, h.laid.tokens_eq]
  cases sort <;> simp [Attr.declare]

/-- The member that a call declares in a struct, if the call is accepted. -/
def Call.members (t : SymbolTable) (n : String) : Call → MemberSort → List Token
  | method token kind _, .methods =>
    if kind ≠ .start ∧ kind ≠ .constructor ∧ t.scope.struct? = some n then [token] else []
  | var token _ _, .attributes => if t.scope = .struct n then [token] else []
  | _, _ => []

namespace SymbolTable

variable {t t' : SymbolTable} {n : String} {s s' : Struct}

/-- The members that accepted calls declare in a struct, in the order of the calls. -/
def history (n : String) (sort : MemberSort) : SymbolTable → List Call → List Token
  | _, [] => []
  | t, call :: calls =>
    (if succeeds call.run t then call.members t n sort else []) ++
      history n sort (stateAfter call.run t) calls

/-- The tokens of the members of a struct in a table. -/
def tokens (t : SymbolTable) (n : String) (sort : MemberSort) : List Token :=
  ((t.struct? n).map (·.tokens sort)).getD []

theorem tokens_of_struct? (h : t.struct? n = some s) (sort : MemberSort) :
    t.tokens n sort = s.tokens sort := by
  rw [tokens, h]
  rfl

theorem tokens_congr (h : t'.struct? n = t.struct? n) (sort : MemberSort) :
    t'.tokens n sort = t.tokens n sort := by
  rw [tokens, tokens, h]

theorem tokens_noteType (t : SymbolTable) (token : Token) (n : String) (sort : MemberSort) :
    (t.noteType token).tokens n sort = t.tokens n sort :=
  tokens_congr (struct?_noteType t token n) sort

theorem tokens_place {token : Token} {parent : Option Token} {form : Form}
    (hne : ∀ p, parent = some p → p.lexeme ≠ token.lexeme) (n : String) (sort : MemberSort) :
    (t.place token parent form).tokens n sort = t.tokens n sort := by
  cases hs' : (t.place token parent form).struct? n with
  | none =>
    have hnone : t.struct? n = none := by
      have hcontains := contains_eq_false_iff_struct?.2 hs'
      rw [contains_place hne, Bool.or_eq_false_iff] at hcontains
      exact contains_eq_false_iff_struct?.1 hcontains.2
    exact tokens_congr (hs'.trans hnone.symm) sort
  | some s' =>
    rw [tokens_of_struct? hs']
    rcases exists_struct?_place hne hs' with ⟨_, hnone, hdetached⟩ | ⟨s, hs, hdetached⟩
    · have hown := (Struct.ownMembers_declare token none).of_detached hdetached
      rw [hown.laid.tokens_eq, tokens, hnone]
      cases sort <;> rfl
    · obtain ⟨p, children, rfl⟩ := Struct.detached_eq_iff.1 hdetached
      rw [tokens_of_struct? hs]
      cases sort <;> rfl

theorem tokens_enroll (t : SymbolTable) (name : String) (form : Form) (n : String)
    (sort : MemberSort) : (t.enroll name form).tokens n sort = t.tokens n sort := by
  rw [tokens, struct?_enroll, tokens]
  split
  · next hn =>
    rw [hn]
    cases form <;> cases t.struct? name <;> cases sort <;> rfl
  · rfl

/-- The struct with another record for one struct: only the tokens of that one may change. -/
theorem tokens_insert (t : SymbolTable) (owner : String) (s' : Struct) (n : String)
    (sort : MemberSort) :
    tokens { t with structs := t.structs.insert owner s' } n sort =
      if n = owner then s'.tokens sort else t.tokens n sort := by
  rw [tokens, struct?, NameMap.get?_insert]
  split <;> rfl

/-- A parameter or a local variable adds no member. -/
theorem tokens_setOpenMethod (h : t.Sound) {m : Method} {params locals : List Binding}
    (hopen : t.openMethod? = some m) (n : String) (sort : MemberSort) :
    (t.setOpenMethod { m with params, locals }).tokens n sort = t.tokens n sort := by
  rw [openMethod?] at hopen
  rw [setOpenMethod]
  cases hscope : t.scope with
  | closed | struct owner | start => rfl
  | constructor owner =>
    rw [hscope] at hopen
    obtain ⟨s, hs, _⟩ := Option.bind_eq_some_iff.1 hopen
    simp only [NameMap.modify_eq_insert hs]
    refine (tokens_insert t owner _ n sort).trans ?_
    split
    · next hn =>
      rw [hn, tokens_of_struct? hs]
      cases sort <;> rfl
    · rfl
  | method owner name =>
    rw [hscope] at hopen
    obtain ⟨s, hs, hm⟩ := Option.bind_eq_some_iff.1 hopen
    have huser := (h.contents.scope owner (by rw [hscope]; rfl)).1
    obtain ⟨ms, as, hown⟩ := h.contents.own owner s huser hs
    have hset := hown.setMethod params locals hm
    obtain ⟨hmem, rfl⟩ := (hown.laid.methods.get?_iff name m).1 hm
    simp only [NameMap.modify_eq_insert hs]
    refine (tokens_insert t owner _ n sort).trans ?_
    split
    · next hn =>
      rw [hn, tokens_of_struct? hs]
      cases sort with
      | methods =>
        rw [hset.laid.tokens_eq, hown.laid.tokens_eq]
        exact hown.laid.methods.map_replace hmem rfl
      | attributes => rfl
    · rfl

theorem tokens_modifyOpenMethod (h : t.Sound) (token : Token) (ty : Ty)
    {f : Method → Except SemanticError Method}
    (hf : ∀ m m', f m = .ok m' → m.addParam token ty = .ok m' ∨ m.addLocal token ty = .ok m')
    (n : String) (sort : MemberSort) :
    (stateAfter (modifyOpenMethod token f) t).tokens n sort = t.tokens n sort := by
  rw [stateAfter, run_modifyOpenMethod]
  cases hopen : t.openMethod? with
  | none => rfl
  | some m =>
    simp only [Option.map_some]
    cases hadd : f m with
    | error e => rfl
    | ok m' =>
      obtain ⟨params, locals, rfl⟩ := Method.extends_of_add (hf m m' hadd)
      exact tokens_setOpenMethod h hopen n sort

/-- A call that declares a struct adds no member. -/
theorem tokens_declareStruct (token : Token) (parent : Option Token) (form : Form) (n : String)
    (sort : MemberSort) :
    (stateAfter (declareStruct token parent form) t).tokens n sort = t.tokens n sort := by
  rw [stateAfter, run_declareStruct]
  cases hfree : t.structRefusal? token (parentToken form parent) form with
  | some refusal => rfl
  | none =>
    have hplace :
        (t.place token (parentToken form parent) form).tokens n sort = t.tokens n sort :=
      tokens_place (fun p hp => ((structRefusal?_eq_none_iff.1 hfree).2.2 p hp).2) n sort
    dsimp only
    split
    · next h =>
      split at h
      · cases h
      · cases h
        rw [tokens_enroll, hplace]
    · next h =>
      split at h
      · cases h
        exact hplace
      · cases h

theorem tokens_declareMethod (h : t.Sound) (token : Token) (kind : MethodKind)
    (returnType : Option Token) (n : String) (sort : MemberSort) :
    (stateAfter (declareMethod token kind returnType) t).tokens n sort =
      t.tokens n sort ++ if succeeds (declareMethod token kind returnType) t
        then (Call.method token kind returnType).members t n sort else [] := by
  by_cases hkind : kind = .start
  · subst hkind
    have hmembers : (Call.method token .start returnType).members t n sort = [] := by
      cases sort <;> simp [Call.members]
    rw [hmembers, ite_self, List.append_nil, stateAfter, run_declareMethod_start]
    cases t.start <;> rfl
  · have hsound := h.reaches (reaches_noteOptional t (returnToken kind returnType))
    have hscope := scope_noteOptional t (returnToken kind returnType)
    have htokens := tokens_congr (struct?_noteOptional t (returnToken kind returnType) n) sort
    rw [stateAfter, succeeds, run_declareMethod token hkind, run_declareTyped, ← htokens]
    generalize t.noteOptional (returnToken kind returnType) = u at *
    cases howner : u.scope.struct? with
    | none => simp
    | some owner =>
      obtain ⟨huser, hregistered⟩ := hsound.contents.scope owner howner
      obtain ⟨s, hs⟩ := contains_iff_struct?.1 hregistered
      obtain ⟨ms, as, hown⟩ := hsound.contents.own owner s huser hs
      simp only [hs, Option.map_some]
      cases hadd : s.addMethod token kind (typeOf (returnToken kind returnType)) with
      | error e => simp
      | ok s' =>
        refine (tokens_insert _ owner s' n sort).trans ?_
        rw [hscope] at howner
        by_cases hn : n = owner
        · subst hn
          rw [if_pos rfl, hown.tokens_addMethod hkind hadd, tokens_of_struct? hs]
          cases sort <;> by_cases hctor : kind = .constructor <;>
            simp [Call.members, howner, hkind, hctor]
        · have hmembers : (Call.method token kind returnType).members t n sort = [] := by
            cases sort <;> simp [Call.members, howner, Ne.symm hn]
          rw [if_neg hn, hmembers, ite_self, List.append_nil]

theorem tokens_declareVar (h : t.Sound) (token type : Token) (isPrivate : Bool) (n : String)
    (sort : MemberSort) :
    (stateAfter (declareVar token type isPrivate) t).tokens n sort =
      t.tokens n sort ++ if succeeds (declareVar token type isPrivate) t
        then (Call.var token type isPrivate).members t n sort else [] := by
  have hsound : (t.noteType type).Sound := h.reaches (.single (.note t type))
  have hlocal := tokens_modifyOpenMethod hsound token (Ty.ofName type.lexeme)
    (f := (·.addLocal token (Ty.ofName type.lexeme))) (fun _ _ => .inr) n sort
  have hother (hscope : t.scope ≠ .struct n) :
      (Call.var token type isPrivate).members t n sort = [] := by
    cases sort <;> simp [Call.members, hscope]
  have htokens := tokens_noteType t type n sort
  rw [stateAfter, succeeds, run_declareVar, ← htokens]
  cases hscope : t.scope with
  | closed => simp
  | start | constructor owner | method owner name =>
    rw [hother (by simp [hscope]), ite_self, List.append_nil]
    exact hlocal
  | struct owner =>
    have hscope' : (t.noteType type).scope.struct? = some owner := by
      rw [scope_noteType, hscope]
      rfl
    obtain ⟨huser, hregistered⟩ := hsound.contents.scope owner hscope'
    obtain ⟨s, hs⟩ := contains_iff_struct?.1 hregistered
    obtain ⟨ms, as, hown⟩ := hsound.contents.own owner s huser hs
    have hnoted : t.struct? owner = some s := (struct?_noteType t type owner).symm.trans hs
    simp only [hnoted, Option.map_some]
    cases hadd : s.addAttribute token (Ty.ofName type.lexeme) isPrivate with
    | error e => simp
    | ok s' =>
      refine (tokens_insert _ owner s' n sort).trans ?_
      by_cases hn : n = owner
      · subst hn
        rw [if_pos rfl, hown.tokens_addAttribute hadd, tokens_of_struct? hs]
        cases sort <;> simp [Call.members, hscope]
      · rw [if_neg hn, hother (by simp [hscope, Ne.symm hn]), ite_self, List.append_nil]

/-- One call adds the member that it declares, if it is accepted. -/
theorem tokens_call (h : t.Sound) (call : Call) (n : String) (sort : MemberSort) :
    (stateAfter call.run t).tokens n sort =
      t.tokens n sort ++ if succeeds call.run t then call.members t n sort else [] := by
  cases call with
  | struct token parent form =>
    have hmembers : (Call.struct token parent form).members t n sort = [] := by cases sort <;> rfl
    rw [hmembers, ite_self, List.append_nil]
    exact tokens_declareStruct token parent form n sort
  | method token kind returnType => exact tokens_declareMethod h token kind returnType n sort
  | param token type =>
    have hmembers : (Call.param token type).members t n sort = [] := by cases sort <;> rfl
    have hsound : (t.noteType type).Sound := h.reaches (.single (.note t type))
    rw [hmembers, ite_self, List.append_nil, ← tokens_noteType t type, Call.run, stateAfter,
      run_declareParam]
    exact tokens_modifyOpenMethod hsound token _ (fun _ _ => .inl) n sort
  | var token type isPrivate => exact tokens_declareVar h token type isPrivate n sort
  | close =>
    have hmembers : Call.close.members t n sort = [] := by cases sort <;> rfl
    rw [hmembers, ite_self, List.append_nil]
    rfl

theorem tokens_after (h : t.Sound) (calls : List Call) (n : String) (sort : MemberSort) :
    (t.after calls).tokens n sort = t.tokens n sort ++ history n sort t calls := by
  induction calls generalizing t with
  | nil => exact (List.append_nil _).symm
  | cons call calls ih =>
    refine (ih (h.reaches (call.moves t))).trans ?_
    rw [tokens_call h, history, List.append_assoc]

/-- The members of a struct, in slot order, are those that accepted calls declare in it, in the
order of the calls. -/
theorem tokens_declared (calls : List Call) (hn : Builtin.structs.contains n = false)
    (sort : MemberSort) : (declared calls).tokens n sort = history n sort new calls := by
  have hnone : new.struct? n = none := NameMap.contains_eq_false_iff.1 hn
  have hnew : new.tokens n sort = [] := by
    rw [tokens, hnone]
    rfl
  rw [declared, tokens_after sound_new, hnew, List.nil_append]

end SymbolTable

end StructLang
