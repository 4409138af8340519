import StructLang.Proofs.StateRun
import StructLang.Proofs.Tree
import StructLang.SymbolTable.Declare

/-!
# What a declaration does to the table

Every declaration is described twice here.

* As an equation: `run_declareStruct`, `run_declareMethod`, `run_declareParam` and `run_declareVar`
  give the outcome of a declaration in every case, with the table that it leaves.
* As steps: `Step` lists the changes that declarations make, and `moves_…` says that every
  declaration, failed or not, is made of such steps.  An invariant of all tables is shown for
  the steps only.
-/

namespace StructLang.SymbolTable

variable {t : SymbolTable}

/-! ## Types -/

/-- The table with the use of a type noted, if the type is a struct that is not registered. -/
def noteType (t : SymbolTable) (token : Token) : SymbolTable :=
  match Ty.ofName token.lexeme with
  | .struct name =>
    if t.contains name then t
    else
      let uses := (t.pendingTypes.get? name).getD []
      { t with pendingTypes := t.pendingTypes.insert name (uses ++ [token]) }
  | _ => t

theorem run_resolveType (token : Token) (t : SymbolTable) :
    (resolveType token).run t = .ok (Ty.ofName token.lexeme) (t.noteType token) := by
  rw [resolveType, noteType]
  cases Ty.ofName token.lexeme <;> rfl

section NoteType

variable (t : SymbolTable) (token : Token)

@[simp] theorem structs_noteType : (t.noteType token).structs = t.structs := by
  rw [noteType]
  split
  · split <;> rfl
  · rfl

@[simp] theorem start_noteType : (t.noteType token).start = t.start := by
  rw [noteType]
  split
  · split <;> rfl
  · rfl

@[simp] theorem pendingParents_noteType : (t.noteType token).pendingParents = t.pendingParents := by
  rw [noteType]
  split
  · split <;> rfl
  · rfl

@[simp] theorem scope_noteType : (t.noteType token).scope = t.scope := by
  rw [noteType]
  split
  · split <;> rfl
  · rfl

@[simp] theorem consolidated_noteType : (t.noteType token).consolidated = t.consolidated := by
  rw [noteType]
  split
  · split <;> rfl
  · rfl

@[simp] theorem struct?_noteType (name : String) :
    (t.noteType token).struct? name = t.struct? name := by
  rw [struct?, structs_noteType, struct?]

@[simp] theorem contains_noteType (name : String) :
    (t.noteType token).contains name = t.contains name := by
  rw [contains, structs_noteType, contains]

end NoteType

/-- The type that a declaration with an optional type token has. -/
def typeOf : Option Token → Ty
  | none => .void
  | some token => Ty.ofName token.lexeme

/-- The table with the use of an optional type noted. -/
def noteOptional (t : SymbolTable) : Option Token → SymbolTable
  | none => t
  | some token => t.noteType token

@[simp] theorem scope_noteOptional (t : SymbolTable) (token : Option Token) :
    (t.noteOptional token).scope = t.scope := by
  cases token with
  | none => rfl
  | some token => exact scope_noteType t token

@[simp] theorem struct?_noteOptional (t : SymbolTable) (token : Option Token) (name : String) :
    (t.noteOptional token).struct? name = t.struct? name := by
  cases token with
  | none => rfl
  | some token => exact struct?_noteType t token name

/-- The type token that counts for a method: a constructor has none. -/
def returnToken (kind : MethodKind) (returnType : Option Token) : Option Token :=
  if kind = .constructor then none else returnType

/-! ## Structs -/

/-- The parent that counts for a form: only the struct item has one. -/
def parentToken (form : Form) (parent : Option Token) : Option Token :=
  if form = .structural then parent else none

/-- A declaration of a struct is not refused when its name is free for the form and its parent, if
there is one, is another struct that may be a parent. -/
theorem structRefusal?_eq_none_iff {token : Token} {parent : Option Token} {form : Form} :
    t.structRefusal? token parent form = none ↔
      Builtin.isReserved token.lexeme = false ∧
      (∀ s, t.struct? token.lexeme = some s → s.hasForm form = false) ∧
      ∀ p, parent = some p → Builtin.isSealed p.lexeme = false ∧ p.lexeme ≠ token.lexeme := by
  unfold structRefusal?
  dsimp only
  cases hreserved : Builtin.isReserved token.lexeme with
  | true => simp
  | false =>
    have hany : (t.struct? token.lexeme).any (·.hasForm form) = false ↔
        ∀ s, t.struct? token.lexeme = some s → s.hasForm form = false := by
      cases t.struct? token.lexeme <;> simp
    cases hform : (t.struct? token.lexeme).any (·.hasForm form) with
    | true =>
      rw [← hany, hform]
      simp
    | false =>
      rw [← hany, hform]
      cases parent with
      | none => simp
      | some p => by_cases hself : p.lexeme = token.lexeme <;> simp [hself]

/-- The table with a form of a struct recorded and the struct opened. -/
def enroll (t : SymbolTable) (name : String) (form : Form) : SymbolTable :=
  { t with structs := t.structs.modify name (·.recordForm form), scope := .struct name }

theorem run_declareStruct (token : Token) (parent : Option Token) (form : Form)
    (t : SymbolTable) :
    (declareStruct token parent form).run t =
      match t.structRefusal? token (parentToken form parent) form with
      | some refusal => .error refusal t
      | none =>
        let placed := t.place token (parentToken form parent) form
        if placed.isCyclic token.lexeme then
          .error ⟨.cyclicInheritance token.lexeme, token.position⟩ placed
        else .ok () (placed.enroll token.lexeme form) := by
  have hparent : (if form = .structural then parent else none) = parentToken form parent := rfl
  simp only [declareStruct, EStateM.run_bind, EStateM.run_get, hparent]
  cases t.structRefusal? token (parentToken form parent) form with
  | some refusal => rfl
  | none =>
    simp only [EStateM.run_bind, EStateM.run_modify, EStateM.run_get]
    split <;> rfl

/-! ## Members -/

theorem run_modifyStruct (name : String) (f : Struct → Except SemanticError Struct)
    (t : SymbolTable) :
    (modifyStruct name f).run t =
      match (t.struct? name).map f with
      | none => .ok () t
      | some (.ok s) => .ok () { t with structs := t.structs.insert name s }
      | some (.error e) => .error e t := by
  simp only [modifyStruct, EStateM.run_bind, EStateM.run_get]
  cases t.struct? name with
  | none => rfl
  | some s =>
    simp only [Option.map_some]
    cases f s <;> rfl

/-- The scope that the declaration of a method opens. -/
def methodScope (owner : String) (kind : MethodKind) (token : Token) : Scope :=
  if kind = .constructor then .constructor owner else .method owner token.lexeme

theorem run_declareMethod_start (token : Token) (returnType : Option Token) (t : SymbolTable) :
    (declareMethod token .start returnType).run t =
      if t.start.isSome then .error ⟨.repeated .startMethod token.lexeme, token.position⟩ t
      else .ok ()
        { t with start := some (.declare token none .start .void 0), scope := .start } := by
  simp only [declareMethod, if_true, EStateM.run_bind, EStateM.run_get]
  split <;> rfl

/-- Declares a method of the open struct whose return type is settled. -/
def declareTyped (token : Token) (kind : MethodKind) (ty : Ty) : Declaring Unit := do
  match (← get).scope.struct? with
  | none => throw ⟨.missing token.lexeme .enclosingImpl, token.position⟩
  | some owner =>
    modifyStruct owner (·.addMethod token kind ty)
    modify fun t => { t with scope := methodScope owner kind token }

theorem run_declareTyped (token : Token) (kind : MethodKind) (ty : Ty) (t : SymbolTable) :
    (declareTyped token kind ty).run t =
      match t.scope.struct? with
      | none => .error ⟨.missing token.lexeme .enclosingImpl, token.position⟩ t
      | some owner =>
        let opened := { t with scope := methodScope owner kind token }
        match (t.struct? owner).map (Struct.addMethod · token kind ty) with
        | none => .ok () opened
        | some (.ok s) => .ok () { opened with structs := t.structs.insert owner s }
        | some (.error e) => .error e t := by
  simp only [declareTyped, EStateM.run_bind, EStateM.run_get]
  cases t.scope.struct? with
  | none => rfl
  | some owner =>
    simp only [EStateM.run_bind, run_modifyStruct]
    cases (t.struct? owner).map (Struct.addMethod · token kind ty) with
    | none => rfl
    | some r => cases r <;> rfl

/-- The return type is settled, and noted, before anything else is looked at. -/
theorem run_declareMethod (token : Token) {kind : MethodKind} (hkind : kind ≠ .start)
    (returnType : Option Token) (t : SymbolTable) :
    (declareMethod token kind returnType).run t =
      (declareTyped token kind (typeOf (returnToken kind returnType))).run
        (t.noteOptional (returnToken kind returnType)) := by
  rw [declareMethod, if_neg hkind]
  cases kind <;> cases returnType
  case start.none | start.some => exact absurd rfl hkind
  case onInstance.some type | static.some type =>
    show EStateM.run (resolveType type >>= fun ty => _) t = _
    rw [EStateM.run_bind, run_resolveType]
    rfl
  all_goals rfl

theorem run_modifyOpenMethod (token : Token) (f : Method → Except SemanticError Method)
    (t : SymbolTable) :
    (modifyOpenMethod token f).run t =
      match t.openMethod?.map f with
      | none => .error ⟨.missing token.lexeme .enclosingMethod, token.position⟩ t
      | some (.ok m) => .ok () (t.setOpenMethod m)
      | some (.error e) => .error e t := by
  simp only [modifyOpenMethod, EStateM.run_bind, EStateM.run_get]
  cases t.openMethod? with
  | none => rfl
  | some m =>
    simp only [Option.map_some]
    cases f m <;> rfl

theorem openMethod?_noteType (t : SymbolTable) (token : Token) :
    (t.noteType token).openMethod? = t.openMethod? := by
  simp only [openMethod?, scope_noteType, start_noteType, struct?_noteType]

theorem run_declareParam (token type : Token) (t : SymbolTable) :
    (declareParam token type).run t =
      (modifyOpenMethod token (·.addParam token (Ty.ofName type.lexeme))).run
        (t.noteType type) := by
  rw [declareParam, EStateM.run_bind, run_resolveType]

theorem run_declareVar (token type : Token) (isPrivate : Bool) (t : SymbolTable) :
    (declareVar token type isPrivate).run t =
      match t.scope with
      | .start | .constructor _ | .method _ _ =>
        (modifyOpenMethod token (·.addLocal token (Ty.ofName type.lexeme))).run (t.noteType type)
      | .struct owner =>
        let noted := t.noteType type
        let ty := Ty.ofName type.lexeme
        match (t.struct? owner).map (Struct.addAttribute · token ty isPrivate) with
        | none => .error ⟨.missing token.lexeme .enclosingStruct, token.position⟩ noted
        | some (.ok s) => .ok () { noted with structs := noted.structs.insert owner s }
        | some (.error e) => .error e noted
      | .closed => .error ⟨.missing token.lexeme .enclosingStruct, token.position⟩
          (t.noteType type) := by
  rw [declareVar, EStateM.run_bind, run_resolveType]
  simp only [EStateM.run_bind, EStateM.run_get, scope_noteType]
  cases hscope : t.scope with
  | struct owner =>
    have hcontains : (t.noteType type).contains owner = (t.struct? owner).isSome :=
      contains_noteType t type owner
    simp only [EStateM.run_bind, EStateM.run_get, hcontains]
    cases hs : t.struct? owner with
    | none => rfl
    | some s =>
      have hrun := run_modifyStruct owner (·.addAttribute token (Ty.ofName type.lexeme) isPrivate)
        (t.noteType type)
      rw [struct?_noteType, hs, scope_noteType, hscope] at hrun
      simp only [Option.map_some] at hrun ⊢
      cases hadd : s.addAttribute token (Ty.ofName type.lexeme) isPrivate <;>
        rw [hadd] at hrun <;> exact hrun
  | _ => rfl

/-! ## Steps -/

/-- A type that declarations may give: it has been resolved from a token, and if it is a struct that
is not registered, its use is noted. -/
def Noted (t : SymbolTable) (ty : Ty) : Prop :=
  ty = .void ∨ ∃ token : Token, ty = Ty.ofName token.lexeme ∧
    ∀ name, ty = .struct name → t.contains name = true ∨ t.pendingTypes.contains name = true

/-- The changes that declarations make. -/
inductive Step : SymbolTable → SymbolTable → Prop where
  /-- The use of a type is noted. -/
  | note (t : SymbolTable) (token : Token) : Step t (t.noteType token)
  /-- A struct takes its place, and its form is recorded. -/
  | placed {t : SymbolTable} {token : Token} {parent : Option Token} {form : Form}
      (hfree : t.structRefusal? token parent form = none)
      (hform : form = .implementation → parent = none)
      (hstraight : (t.place token parent form).isCyclic token.lexeme = false) :
      Step t ((t.place token parent form).enroll token.lexeme form)
  /-- A struct takes a place that closes a cycle.  It keeps the place, and its form is not
  recorded. -/
  | misplaced {t : SymbolTable} {token : Token} {parent : Option Token} {form : Form}
      (hfree : t.structRefusal? token parent form = none)
      (hform : form = .implementation → parent = none)
      (hcycle : (t.place token parent form).isCyclic token.lexeme = true) :
      Step t (t.place token parent form)
  /-- The start method is declared. -/
  | started {t : SymbolTable} (token : Token) (hnew : t.start = none) :
      Step t { t with start := some (.declare token none .start .void 0), scope := .start }
  /-- A method or a constructor is added to the open struct. -/
  | addedMethod {t : SymbolTable} {owner : String} {s s' : Struct} {token : Token}
      {kind : MethodKind} {ty : Ty} (hkind : kind ≠ .start) (hscope : t.scope.struct? = some owner)
      (hs : t.struct? owner = some s) (hadd : s.addMethod token kind ty = .ok s')
      (hty : t.Noted ty) :
      Step t { t with
        structs := t.structs.insert owner s', scope := methodScope owner kind token }
  /-- An attribute is added to the open struct. -/
  | addedAttribute {t : SymbolTable} {owner : String} {s s' : Struct} {token : Token} {ty : Ty}
      {isPrivate : Bool} (hscope : t.scope = .struct owner) (hs : t.struct? owner = some s)
      (hadd : s.addAttribute token ty isPrivate = .ok s') (hty : t.Noted ty) :
      Step t { t with structs := t.structs.insert owner s' }
  /-- A parameter or a local variable is added to the open method. -/
  | addedBinding {t : SymbolTable} {m m' : Method} {token : Token} {ty : Ty}
      (hopen : t.openMethod? = some m)
      (hadd : m.addParam token ty = .ok m' ∨ m.addLocal token ty = .ok m') (hty : t.Noted ty) :
      Step t (t.setOpenMethod m')
  /-- A method is declared in an open struct that is not registered. -/
  | lost {t : SymbolTable} {owner : String} (scope : Scope)
      (hscope : t.scope.struct? = some owner) (hnone : t.struct? owner = none) :
      Step t { t with scope }
  /-- The scope is closed. -/
  | close (t : SymbolTable) : Step t { t with scope := .closed }

theorem noted_noteType (t : SymbolTable) (token : Token) :
    (t.noteType token).Noted (Ty.ofName token.lexeme) := by
  refine .inr ⟨token, rfl, fun name hname => ?_⟩
  rw [contains_noteType, noteType, hname]
  by_cases h : t.contains name = true
  · exact .inl h
  · simp [h]

theorem noted_noteOptional (t : SymbolTable) (token : Option Token) :
    (t.noteOptional token).Noted (typeOf token) := by
  cases token with
  | none => exact .inl rfl
  | some token => exact noted_noteType t token

theorem reaches_noteOptional (t : SymbolTable) (token : Option Token) :
    Relation.ReflTransGen Step t (t.noteOptional token) := by
  cases token with
  | none => exact .refl
  | some token => exact .single (.note t token)

theorem moves_declareStruct (token : Token) (parent : Option Token) (form : Form) :
    Moves Step (declareStruct token parent form) := by
  intro t
  have hform : form = .implementation → parentToken form parent = none := by
    rintro rfl
    rfl
  rw [stateAfter, run_declareStruct]
  cases hfree : t.structRefusal? token (parentToken form parent) form with
  | some refusal => exact .refl
  | none =>
    dsimp only
    cases hcycle : (t.place token (parentToken form parent) form).isCyclic token.lexeme with
    | false => exact .single (.placed hfree hform hcycle)
    | true => exact .single (.misplaced hfree hform hcycle)

theorem moves_declareMethod (token : Token) (kind : MethodKind) (returnType : Option Token) :
    Moves Step (declareMethod token kind returnType) := by
  intro t
  rw [stateAfter]
  by_cases hkind : kind = .start
  · subst hkind
    rw [run_declareMethod_start]
    cases hstart : t.start with
    | none => exact .single (.started token hstart)
    | some m => exact .refl
  · have hnoted := noted_noteOptional t (returnToken kind returnType)
    refine (reaches_noteOptional t (returnToken kind returnType)).trans ?_
    rw [run_declareMethod token hkind, run_declareTyped]
    generalize t.noteOptional (returnToken kind returnType) = u at hnoted ⊢
    cases hscope : u.scope.struct? with
    | none => exact .refl
    | some owner =>
      cases hs : u.struct? owner with
      | none =>
        simp only [hs, Option.map_none]
        exact .single (.lost _ hscope hs)
      | some s =>
        simp only [hs, Option.map_some]
        cases hadd : s.addMethod token kind (typeOf (returnToken kind returnType)) with
        | ok s' => exact .single (.addedMethod hkind hscope hs hadd hnoted)
        | error e => exact .refl

theorem reaches_modifyOpenMethod {t : SymbolTable} {ty : Ty} (hty : t.Noted ty) (token : Token)
    {f : Method → Except SemanticError Method}
    (hf : ∀ m m', f m = .ok m' → m.addParam token ty = .ok m' ∨ m.addLocal token ty = .ok m') :
    Relation.ReflTransGen Step t (stateAfter (modifyOpenMethod token f) t) := by
  rw [stateAfter, run_modifyOpenMethod]
  cases hopen : t.openMethod? with
  | none => exact .refl
  | some m =>
    simp only [Option.map_some]
    cases hadd : f m with
    | ok m' => exact .single (.addedBinding hopen (hf m m' hadd) hty)
    | error e => exact .refl

theorem moves_declareParam (token type : Token) : Moves Step (declareParam token type) := by
  intro t
  rw [stateAfter, run_declareParam]
  exact Relation.ReflTransGen.head (.note t type)
    (reaches_modifyOpenMethod (noted_noteType t type) token fun _ _ => .inl)

theorem moves_declareVar (token type : Token) (isPrivate : Bool) :
    Moves Step (declareVar token type isPrivate) := by
  intro t
  have hnoted := noted_noteType t type
  have hvariable := reaches_modifyOpenMethod hnoted token (f := (·.addLocal token
    (Ty.ofName type.lexeme))) fun _ _ => .inr
  rw [stateAfter, run_declareVar]
  refine Relation.ReflTransGen.head (.note t type) ?_
  cases hscope : t.scope with
  | closed => exact .refl
  | start | constructor owner | method owner name => exact hvariable
  | struct owner =>
    dsimp only
    cases hs : t.struct? owner with
    | none => exact .refl
    | some s =>
      simp only [Option.map_some]
      cases hadd : s.addAttribute token (Ty.ofName type.lexeme) isPrivate with
      | ok s' =>
        have hscope' : (t.noteType type).scope = .struct owner := by rw [scope_noteType, hscope]
        have hs' : (t.noteType type).struct? owner = some s := by rw [struct?_noteType, hs]
        exact .single (.addedAttribute hscope' hs' hadd hnoted)
      | error e => exact .refl

theorem moves_closeScope : Moves Step closeScope := fun t => .single (.close t)

end StructLang.SymbolTable
