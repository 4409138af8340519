import StructLang.Analysis
import StructLang.Proofs.Sound

/-!
# What the declaration of an item leaves

Every declaration of an item is described by a condition under which it is accepted and by the table
that it leaves then, in one record.

* `noteTypes` collects the types that an item mentions and that are not registered.
* Bindings: the parameters and locals of the open method are added one by one, and nothing else
  changes (`forM_bind_eq_ok`).
* Members: `Struct.withAttribute` and `Struct.withMethod` are the struct with one more declared
  member.
* `Item.declare_struct_eq_ok`, `Item.declare_impl_eq_ok` and `Item.declare_start_eq_ok` put the
  parts together.
-/

namespace StructLang

/-! ## The members that items define -/

/-- The binding that a typed name stands for. -/
def VarDef.binding (v : VarDef) : Binding := ⟨v.name, Ty.ofName v.ty.lexeme⟩

/-- The attribute that a definition stands for. -/
def AttrDef.attr (owner : String) (slot : Nat) (a : AttrDef) : Attr :=
  .declare a.name owner (Ty.ofName a.ty.lexeme) a.isPrivate slot

/-- The type that a method returns. -/
def MethodDef.returns (d : MethodDef) : Ty :=
  SymbolTable.typeOf (SymbolTable.returnToken d.kind d.returnType)

/-- The method that a definition stands for. -/
def MethodDef.method (owner : String) (slot : Nat) (d : MethodDef) : Method :=
  ⟨d.name, some owner, d.kind, d.params.map (·.binding), d.returns, slot, d.locals.map (·.binding)⟩

/-- The start method that a start item stands for. -/
def StartDef.method (d : StartDef) : Method :=
  ⟨d.token, none, .start, [], .void, 0, d.locals.map (·.binding)⟩

/-- The type tokens of a method, in the order in which they are resolved. -/
def MethodDef.types (d : MethodDef) : List Token :=
  (SymbolTable.returnToken d.kind d.returnType).toList ++ d.params.map (·.ty) ++ d.locals.map (·.ty)

/-- The names that a method binds are distinct. -/
def MethodDef.Distinct (d : MethodDef) : Prop :=
  (d.params.map (·.name.lexeme)).Nodup ∧ (d.locals.map (·.name.lexeme)).Nodup ∧
    ∀ v ∈ d.locals, v.name.lexeme ∉ d.params.map (·.name.lexeme)

/-- The struct with one more attribute. -/
def Struct.withAttribute (s : Struct) (a : AttrDef) : Struct :=
  { s with
    attributes := s.attributes.insert a.name.lexeme (a.attr s.name s.nextAttributeSlot)
    nextAttributeSlot := s.nextAttributeSlot + 1 }

/-- The struct with one more method, or with its constructor. -/
def Struct.withMethod (s : Struct) (d : MethodDef) : Struct :=
  if d.kind = .constructor then { s with constructor := some (d.method s.name 0) }
  else
    { s with
      methods := s.methods.insert d.name.lexeme (d.method s.name s.nextMethodSlot)
      nextMethodSlot := s.nextMethodSlot + 1 }

/-! ## Bindings of a method -/

/-- Adding bindings one by one, where a binding is refused if its name is taken. -/
theorem foldlM_binding_eq_ok {add : Method → VarDef → Except SemanticError Method}
    (taken : Method → String → Prop) (push : Method → List Binding → Method)
    (hadd : ∀ m v m', add m v = .ok m' ↔
      ¬ taken m v.name.lexeme ∧ m' = push m [v.binding])
    (htaken : ∀ m b x, taken (push m [b]) x ↔ taken m x ∨ x = b.name)
    (hnil : ∀ m, push m [] = m) (happend : ∀ m b bs, push (push m [b]) bs = push m (b :: bs))
    {vs : List VarDef} {m m' : Method} :
    vs.foldlM add m = .ok m' ↔ (∀ v ∈ vs, ¬ taken m v.name.lexeme) ∧
      (vs.map (·.name.lexeme)).Nodup ∧ m' = push m (vs.map (·.binding)) := by
  induction vs generalizing m with
  | nil => simp [pure, Except.pure, hnil, eq_comm]
  | cons v vs ih =>
    have hbind : (v :: vs).foldlM add m = .ok m' ↔
        ∃ m₁, add m v = .ok m₁ ∧ vs.foldlM add m₁ = .ok m' := by
      rw [List.foldlM_cons]
      cases add m v with
      | error e => simp [bind, Except.bind]
      | ok m₁ => simp [bind, Except.bind]
    simp only [hbind, hadd, ih]
    constructor
    · rintro ⟨_, ⟨hfree, rfl⟩, hrest, hnodup, rfl⟩
      refine ⟨fun w hw => ?_, ?_, happend m _ _⟩
      · rcases List.mem_cons.1 hw with rfl | hw
        · exact hfree
        · exact fun hold => hrest w hw ((htaken m _ _).2 (.inl hold))
      · rw [List.map_cons, List.nodup_cons]
        refine ⟨fun hmem => ?_, hnodup⟩
        obtain ⟨w, hw, heq⟩ := List.mem_map.1 hmem
        exact hrest w hw ((htaken m _ _).2 (.inr heq))
    · rintro ⟨hfree, hnodup, rfl⟩
      rw [List.map_cons, List.nodup_cons] at hnodup
      refine ⟨_, ⟨hfree v List.mem_cons_self, rfl⟩, fun w hw => ?_, hnodup.2, (happend m _ _).symm⟩
      rw [htaken]
      rintro (hold | heq)
      · exact hfree w (List.mem_cons_of_mem _ hw) hold
      · exact hnodup.1 (List.mem_map.2 ⟨w, hw, heq⟩)

theorem Method.param?_isSome {m : Method} {x : String} :
    (m.param? x).isSome = true ↔ x ∈ m.params.map (·.name) := by
  rw [param?, List.find?_isSome, List.mem_map]
  simp only [beq_iff_eq]

theorem Method.local?_isSome {m : Method} {x : String} :
    (m.local? x).isSome = true ↔ x ∈ m.locals.map (·.name) := by
  rw [local?, List.find?_isSome, List.mem_map]
  simp only [beq_iff_eq]

theorem foldlM_addParam_eq_ok {vs : List VarDef} {m m' : Method} :
    vs.foldlM (fun m v => m.addParam v.name (Ty.ofName v.ty.lexeme)) m = .ok m' ↔
      (∀ v ∈ vs, v.name.lexeme ∉ m.params.map (·.name)) ∧ (vs.map (·.name.lexeme)).Nodup ∧
        m' = { m with params := m.params ++ vs.map (·.binding) } := by
  refine foldlM_binding_eq_ok (fun m x => x ∈ m.params.map (·.name))
    (fun m bs => { m with params := m.params ++ bs }) (fun m v m' => ?_)
    (fun m b x => ?_) (fun m => ?_) fun m b bs => ?_
  · rw [Method.addParam, ← Method.param?_isSome]
    split
    · next h => simp [h]
    · next h => simp [h, VarDef.binding, eq_comm]
  · simp
  · simp
  · simp

theorem foldlM_addLocal_eq_ok {vs : List VarDef} {m m' : Method} :
    vs.foldlM (fun m v => m.addLocal v.name (Ty.ofName v.ty.lexeme)) m = .ok m' ↔
      (∀ v ∈ vs, v.name.lexeme ∉ m.locals.map (·.name) ++ m.params.map (·.name)) ∧
        (vs.map (·.name.lexeme)).Nodup ∧
        m' = { m with locals := m.locals ++ vs.map (·.binding) } := by
  refine foldlM_binding_eq_ok (fun m x => x ∈ m.locals.map (·.name) ++ m.params.map (·.name))
    (fun m bs => { m with locals := m.locals ++ bs }) (fun m v m' => ?_)
    (fun m b x => ?_) (fun m => ?_) fun m b bs => ?_
  · rw [Method.addLocal, List.mem_append, ← Method.param?_isSome, ← Method.local?_isSome,
      ← Bool.or_eq_true]
    split
    · next h => simp [h]
    · next h => simp [h, VarDef.binding, eq_comm]
  · simp only [List.map_append, List.mem_append, List.map_cons, List.map_nil, List.mem_singleton]
    rw [or_assoc, or_assoc]
    exact or_congr_right or_comm
  · simp
  · simp

namespace SymbolTable

variable {t t' u : SymbolTable} {n : String} {s : Struct} {m m' : Method}

/-! ## Notes of types -/

/-- The table with the uses of types noted. -/
def noteTypes (t : SymbolTable) (tokens : List Token) : SymbolTable := tokens.foldl noteType t

theorem noteTypes_noteTypes (t : SymbolTable) (xs ys : List Token) :
    (t.noteTypes xs).noteTypes ys = t.noteTypes (xs ++ ys) :=
  (List.foldl_append).symm

/-- The notes depend on the notes before and on the registered names only. -/
theorem pendingTypes_noteType_congr (hcontains : ∀ n, u.contains n = t.contains n)
    (htypes : u.pendingTypes = t.pendingTypes) (token : Token) :
    (u.noteType token).pendingTypes = (t.noteType token).pendingTypes := by
  rw [noteType, noteType]
  split
  · next name _ =>
    rw [hcontains]
    split
    · exact htypes
    · rw [htypes]
  · exact htypes

theorem pendingTypes_noteTypes_congr (hcontains : ∀ n, u.contains n = t.contains n)
    (htypes : u.pendingTypes = t.pendingTypes) (tokens : List Token) :
    (u.noteTypes tokens).pendingTypes = (t.noteTypes tokens).pendingTypes := by
  induction tokens generalizing t u with
  | nil => exact htypes
  | cons token tokens ih =>
    refine ih (fun n => ?_) (pendingTypes_noteType_congr hcontains htypes token)
    rw [contains_noteType, contains_noteType, hcontains]

/-- The table with the notes of another one. -/
def takeNotes (t u : SymbolTable) : SymbolTable := { t with pendingTypes := u.pendingTypes }

theorem takeNotes_congr (t : SymbolTable) {u v : SymbolTable}
    (h : u.pendingTypes = v.pendingTypes) : t.takeNotes u = t.takeNotes v := by
  rw [takeNotes, takeNotes, h]

/-- Only the notes change. -/
theorem noteType_eq (t : SymbolTable) (token : Token) :
    t.noteType token = t.takeNotes (t.noteType token) := by
  rw [takeNotes, noteType]
  split
  · split <;> rfl
  · rfl

theorem contains_noteTypes (t : SymbolTable) (tokens : List Token) (n : String) :
    (t.noteTypes tokens).contains n = t.contains n := by
  induction tokens generalizing t with
  | nil => rfl
  | cons token tokens ih => exact (ih _).trans (contains_noteType t token n)

theorem contains_pendingTypes_noteType (t : SymbolTable) (token : Token) (n : String) :
    (t.noteType token).pendingTypes.contains n = true ↔ t.pendingTypes.contains n = true ∨
      t.contains n = false ∧ Ty.ofName token.lexeme = .struct n := by
  rw [noteType]
  split
  · next name hname =>
    cases hcontains : t.contains name with
    | true =>
      rw [if_pos rfl]
      refine ⟨.inl, fun h => h.resolve_right ?_⟩
      rintro ⟨hfalse, heq⟩
      rw [hname] at heq
      cases heq
      rw [hcontains] at hfalse
      cases hfalse
    | false =>
      rw [if_neg Bool.false_ne_true, NameMap.contains_insert]
      by_cases hn : n = name
      · simp [hn, hcontains, hname]
      · simp [hn, hname, Ne.symm hn]
  · next hname => exact ⟨.inl, fun h => h.resolve_right fun hnew => hname n hnew.2⟩

/-- A type is noted when it is a struct that is mentioned and not registered. -/
theorem contains_pendingTypes_noteTypes (t : SymbolTable) (tokens : List Token) (n : String) :
    (t.noteTypes tokens).pendingTypes.contains n = true ↔ t.pendingTypes.contains n = true ∨
      t.contains n = false ∧ ∃ token ∈ tokens, Ty.ofName token.lexeme = .struct n := by
  induction tokens generalizing t with
  | nil => simp [noteTypes]
  | cons token tokens ih =>
    show ((t.noteType token).noteTypes tokens).pendingTypes.contains n = true ↔ _
    rw [ih, contains_pendingTypes_noteType, contains_noteType, or_assoc, ← and_or_left]
    simp

/-! ## The open method -/

theorem contains_setOpenMethod (t : SymbolTable) (m : Method) (n : String) :
    (t.setOpenMethod m).contains n = t.contains n := by
  rw [setOpenMethod]
  split
  · rfl
  · rfl
  · rfl
  · exact NameMap.contains_modify _ _ _ _
  · exact NameMap.contains_modify _ _ _ _

theorem scope_setOpenMethod (t : SymbolTable) (m : Method) :
    (t.setOpenMethod m).scope = t.scope := by
  rw [setOpenMethod]
  split <;> rfl

theorem pendingTypes_setOpenMethod (t : SymbolTable) (m : Method) :
    (t.setOpenMethod m).pendingTypes = t.pendingTypes := by
  rw [setOpenMethod]
  split <;> rfl

theorem setOpenMethod_takeNotes (t u : SymbolTable) (m : Method) :
    (t.takeNotes u).setOpenMethod m = (t.setOpenMethod m).takeNotes u := by
  obtain ⟨_, _, _, _, scope, _⟩ := t
  cases scope <;> rfl

theorem openMethod?_takeNotes (t u : SymbolTable) :
    (t.takeNotes u).openMethod? = t.openMethod? := rfl

theorem setOpenMethod_noteType (t : SymbolTable) (token : Token) (m : Method) :
    (t.noteType token).setOpenMethod m = (t.setOpenMethod m).takeNotes (t.noteType token) := by
  rw [← setOpenMethod_takeNotes, ← noteType_eq]

/-- The open method is what was set. -/
theorem openMethod?_setOpenMethod (hopen : t.openMethod? = some m) :
    (t.setOpenMethod m').openMethod? = some m' := by
  rw [openMethod?, scope_setOpenMethod, setOpenMethod]
  rw [openMethod?] at hopen
  cases hscope : t.scope with
  | closed | struct owner =>
    rw [hscope] at hopen
    cases hopen
  | start => rfl
  | constructor owner | method owner name =>
    rw [hscope] at hopen
    obtain ⟨s, hs, _⟩ := Option.bind_eq_some_iff.1 hopen
    simp only [struct?, NameMap.get?_modify, if_true]
    rw [show t.structs.get? owner = some s from hs]
    simp

theorem setOpenMethod_setOpenMethod (t : SymbolTable) (m m' : Method) :
    (t.setOpenMethod m).setOpenMethod m' = t.setOpenMethod m' := by
  have hmodify (owner : String) (f g h : Struct → Struct) (hcomp : ∀ s, g (f s) = h s) :
      (t.structs.modify owner f).modify owner g = t.structs.modify owner h := by
    refine NameMap.ext_get? fun n => ?_
    by_cases hn : n = owner
    · simp only [hn, NameMap.get?_modify, if_true, Option.map_map]
      exact Option.map_congr fun s _ => hcomp s
    · simp [hn]
  rw [setOpenMethod, scope_setOpenMethod]
  simp only [setOpenMethod]
  cases t.scope with
  | closed | struct owner | start => rfl
  | constructor owner =>
    simp only
    rw [hmodify owner _ _ _ fun s => rfl]
  | method owner name =>
    simp only
    rw [hmodify owner _ _ (fun s => { s with methods := s.methods.insert name m' }) fun s => by
      simp only [NameMap.insert_insert]]

theorem setOpenMethod_self (hopen : t.openMethod? = some m) : t.setOpenMethod m = t := by
  rw [openMethod?] at hopen
  rw [setOpenMethod]
  cases hscope : t.scope with
  | closed | struct owner => rfl
  | start =>
    rw [hscope] at hopen
    simp only [← hopen, ← hscope]
  | constructor owner =>
    rw [hscope] at hopen
    obtain ⟨s, hs, hm⟩ := Option.bind_eq_some_iff.1 hopen
    have hsame : { s with constructor := some m } = s := by rw [← hm]
    simp only [NameMap.modify_eq_insert hs, hsame, ← hscope]
    rw [NameMap.insert_eq_self hs]
  | method owner name =>
    rw [hscope] at hopen
    obtain ⟨s, hs, hm⟩ := Option.bind_eq_some_iff.1 hopen
    have hsame : { s with methods := s.methods.insert name m } = s := by
      rw [NameMap.insert_eq_self hm]
    simp only [NameMap.modify_eq_insert hs, hsame, ← hscope]
    rw [NameMap.insert_eq_self hs]

/-- Bindings are added to the open method one by one, and their types are noted. -/
theorem forM_bind_eq_ok {declare : VarDef → Declaring Unit}
    {add : Method → VarDef → Except SemanticError Method}
    (hdeclare : ∀ u v, u.scope = t.scope →
      (declare v).run u = (modifyOpenMethod v.name (add · v)).run (u.noteType v.ty))
    (hopen : t.openMethod? = some m) (vs : List VarDef) :
    (vs.forM declare).run t = .ok () t' ↔ ∃ m', vs.foldlM add m = .ok m' ∧
      t' = (t.setOpenMethod m').takeNotes (t.noteTypes (vs.map (·.ty))) := by
  induction vs generalizing t m with
  | nil =>
    have hself : (t.setOpenMethod m).takeNotes (t.noteTypes []) = t := by
      rw [setOpenMethod_self hopen]
      rfl
    simp only [run_forM_nil, List.foldlM_nil, pure, Except.pure, Except.ok.injEq, exists_eq_left',
      List.map_nil, hself, EStateM.Result.ok.injEq, true_and, eq_comm]
  | cons v vs ih =>
    rw [run_forM_cons_eq_ok, hdeclare t v rfl, run_modifyOpenMethod, openMethod?_noteType, hopen,
      List.foldlM_cons]
    cases hadd : add m v with
    | error e => simp [hadd, bind, Except.bind]
    | ok m₁ =>
      have hopen₁ : ((t.noteType v.ty).setOpenMethod m₁).openMethod? = some m₁ :=
        openMethod?_setOpenMethod ((openMethod?_noteType t v.ty).trans hopen)
      have hscope₁ : ((t.noteType v.ty).setOpenMethod m₁).scope = t.scope := by
        rw [scope_setOpenMethod, scope_noteType]
      have hnotes := pendingTypes_noteTypes_congr (contains_setOpenMethod (t.noteType v.ty) m₁)
        (pendingTypes_setOpenMethod (t.noteType v.ty) m₁) (vs.map (·.ty))
      have hset (m' : Method) : (((t.noteType v.ty).setOpenMethod m₁).setOpenMethod m').takeNotes
          (((t.noteType v.ty).setOpenMethod m₁).noteTypes (vs.map (·.ty))) =
          (t.setOpenMethod m').takeNotes (t.noteTypes ((v :: vs).map (·.ty))) := by
        rw [setOpenMethod_setOpenMethod, takeNotes_congr _ hnotes, setOpenMethod_noteType]
        rfl
      have hnext := ih (t := (t.noteType v.ty).setOpenMethod m₁)
        (fun u v hu => hdeclare u v (hu.trans hscope₁)) hopen₁
      simp only [hset] at hnext
      simp only [Option.map_some, hadd, EStateM.Result.ok.injEq, true_and, exists_eq_left', hnext]
      rfl

/-! ## Members of the open struct -/

/-- The table with another record for a struct. -/
def setStruct (t : SymbolTable) (n : String) (s : Struct) : SymbolTable :=
  { t with structs := t.structs.insert n s }

/-- The table with nothing open. -/
def closed (t : SymbolTable) : SymbolTable := { t with scope := .closed }

theorem struct?_setStruct (t : SymbolTable) (n : String) (s : Struct) (other : String) :
    (t.setStruct n s).struct? other = if other = n then some s else t.struct? other :=
  NameMap.get?_insert _ _ _ _

theorem contains_setStruct (hs : t.struct? n = some s) (s' : Struct) (other : String) :
    (t.setStruct n s').contains other = t.contains other := by
  have hn := contains_iff_struct?.2 ⟨s, hs⟩
  refine (NameMap.contains_insert _ _ _ _).trans ?_
  by_cases ho : other = n
  · simp [ho, hn]
  · simp only [ho, decide_false, Bool.false_or]
    rfl

/-- Whether members can be added to a struct one after the other. -/
def AcceptsAll {α : Type} (ok : Struct → α → Prop) (add : Struct → α → Struct) :
    Struct → List α → Prop
  | _, [] => True
  | s, x :: xs => ok s x ∧ AcceptsAll ok add (add s x) xs

/-- Members are added to the open struct one by one, and their types are noted. -/
theorem forM_members_eq_ok {α : Type} {declare : α → Declaring Unit} {ok : Struct → α → Prop}
    {add : Struct → α → Struct} {types : α → List Token} (opens : Scope → Prop)
    (scopeOf : α → Scope)
    (hdeclare : ∀ u s x u', opens u.scope → u.struct? n = some s →
      ((declare x).run u = .ok () u' ↔ ok s x ∧
        u' = { (u.setStruct n (add s x)).takeNotes (u.noteTypes (types x)) with
          scope := scopeOf x }))
    (hscope : ∀ x, opens (scopeOf x)) (hopen : opens t.scope) (hs : t.struct? n = some s)
    (xs : List α) :
    (do xs.forM declare; closeScope : Declaring Unit).run t = .ok () t' ↔
      AcceptsAll ok add s xs ∧
        t' = ((t.setStruct n (xs.foldl add s)).takeNotes
          (t.noteTypes (xs.flatMap types))).closed := by
  induction xs generalizing t s with
  | nil =>
    have hself : t.setStruct n s = t := by rw [setStruct, NameMap.insert_eq_self hs]
    simp only [AcceptsAll, true_and, List.foldl_nil, List.flatMap_nil, hself]
    rw [run_bind_eq_ok]
    simp [closeScope, closed, takeNotes, noteTypes, eq_comm]
  | cons x xs ih =>
    have hsplit : (do (x :: xs).forM declare; closeScope : Declaring Unit).run t = .ok () t' ↔
        ∃ t₁, (declare x).run t = .ok () t₁ ∧
          (do xs.forM declare; closeScope : Declaring Unit).run t₁ = .ok () t' := by
      simp only [run_bind_eq_ok]
      constructor
      · rintro ⟨⟨⟩, u, hrun, hlast⟩
        obtain ⟨t₁, hfirst, hrest⟩ := run_forM_cons_eq_ok.1 hrun
        exact ⟨t₁, hfirst, (), u, hrest, hlast⟩
      · rintro ⟨t₁, hfirst, ⟨⟩, u, hrest, hlast⟩
        exact ⟨(), u, run_forM_cons_eq_ok.2 ⟨t₁, hfirst, hrest⟩, hlast⟩
    rw [hsplit, AcceptsAll]
    simp only [hdeclare t s x _ hopen hs, and_assoc, exists_and_left, exists_eq_left]
    refine and_congr_right fun _ => ?_
    have hs₁ : struct? { (t.setStruct n (add s x)).takeNotes (t.noteTypes (types x)) with
        scope := scopeOf x } n = some (add s x) := by
      refine (struct?_setStruct t n (add s x) n).trans ?_
      rw [if_pos rfl]
    have hnotes := pendingTypes_noteTypes_congr (t := t.noteTypes (types x))
      (u := { (t.setStruct n (add s x)).takeNotes (t.noteTypes (types x)) with scope := scopeOf x })
      (fun m => (contains_setStruct hs (add s x) m).trans (contains_noteTypes t (types x) m).symm)
      rfl (xs.flatMap types)
    rw [ih (hscope x) hs₁, takeNotes_congr _ hnotes, noteTypes_noteTypes, List.flatMap_cons,
      List.foldl_cons]
    refine and_congr_right fun _ => ?_
    simp only [setStruct, takeNotes, closed, NameMap.insert_insert]

/-- Attributes are added to the open struct. -/
theorem declareVar_attribute_eq_ok (hscope : t.scope = .struct n) (hs : t.struct? n = some s)
    (a : AttrDef) :
    (declareVar a.name a.ty a.isPrivate).run t = .ok () t' ↔
      s.attributes.contains a.name.lexeme = false ∧
        t' = { (t.setStruct n (s.withAttribute a)).takeNotes (t.noteTypes [a.ty]) with
          scope := .struct n } := by
  have htable : { t.noteType a.ty with
      structs := (t.noteType a.ty).structs.insert n (s.withAttribute a) } =
      { (t.setStruct n (s.withAttribute a)).takeNotes (t.noteTypes [a.ty]) with
        scope := .struct n } := by
    rw [← hscope, noteType_eq]
    rfl
  rw [run_declareVar, hscope]
  simp only [hs, Option.map_some]
  cases hcontains : s.attributes.contains a.name.lexeme with
  | true =>
    rw [Struct.addAttribute, hcontains]
    simp
  | false =>
    have hadd : s.addAttribute a.name (Ty.ofName a.ty.lexeme) a.isPrivate =
        .ok (s.withAttribute a) := by
      rw [Struct.addAttribute, hcontains]
      rfl
    rw [hadd, ← htable]
    simp [eq_comm]

/-- Whether a struct has room for a method: it has no other constructor, or no other method of the
name. -/
def HasRoom (s : Struct) (d : MethodDef) : Prop :=
  if d.kind = .constructor then s.constructor = none else s.methods.contains d.name.lexeme = false

/-- The table with a method in the open struct, which it leaves open, and with notes. -/
def withOpenMethod (t : SymbolTable) (n : String) (s : Struct) (d : MethodDef) : SymbolTable :=
  { t.setStruct n (s.withMethod d) with scope := methodScope n d.kind d.name }

/-- The method that has just been added is open. -/
theorem openMethod?_withOpenMethod (d : MethodDef) :
    (t.withOpenMethod n s d).openMethod? =
      some (d.method s.name (if d.kind = .constructor then 0 else s.nextMethodSlot)) := by
  have hs : (t.setStruct n (s.withMethod d)).struct? n = some (s.withMethod d) := by
    rw [struct?_setStruct, if_pos rfl]
  rw [withOpenMethod, openMethod?, methodScope]
  by_cases hctor : d.kind = .constructor
  · simp only [hctor, if_true]
    refine Option.bind_eq_some_iff.2 ⟨_, hs, ?_⟩
    simp [Struct.withMethod, hctor]
  · simp only [hctor, if_false]
    refine Option.bind_eq_some_iff.2 ⟨_, hs, ?_⟩
    simp [Struct.withMethod, hctor]

/-- A method that is open is replaced together with its definition. -/
theorem setOpenMethod_withOpenMethod (d d' : MethodDef) (hname : d'.name = d.name)
    (hkind : d'.kind = d.kind) :
    (t.withOpenMethod n s d).setOpenMethod
        (d'.method s.name (if d.kind = .constructor then 0 else s.nextMethodSlot)) =
      t.withOpenMethod n s d' := by
  have hmodify (f : Struct → Struct) :
      (t.structs.insert n (s.withMethod d)).modify n f =
        t.structs.insert n (f (s.withMethod d)) := by
    refine (NameMap.modify_eq_insert ?_ f).trans (NameMap.insert_insert _ _ _ _)
    rw [NameMap.get?_insert, if_pos rfl]
  rw [withOpenMethod, withOpenMethod, setOpenMethod, hkind, hname, methodScope]
  by_cases hctor : d.kind = .constructor
  · simp only [hctor, if_true, setStruct, hmodify]
    simp [Struct.withMethod, hctor, hkind]
  · simp only [hctor, if_false, setStruct, hmodify]
    simp [Struct.withMethod, hctor, hkind, hname]

theorem addMethod_of_hasRoom (d : MethodDef) (hroom : HasRoom s d) :
    s.addMethod d.name d.kind d.returns =
      .ok (s.withMethod { d with params := [], locals := [] }) := by
  rw [HasRoom] at hroom
  by_cases hctor : d.kind = .constructor
  · rw [if_pos hctor] at hroom
    simp [Struct.addMethod, Struct.withMethod, hctor, hroom, Method.declare, MethodDef.method,
      MethodDef.returns, returnToken, typeOf]
  · rw [if_neg hctor] at hroom
    simp [Struct.addMethod, Struct.withMethod, hctor, hroom, Method.declare, MethodDef.method,
      MethodDef.returns]

theorem hasRoom_of_addMethod {s' : Struct} {d : MethodDef}
    (hadd : s.addMethod d.name d.kind d.returns = .ok s') : HasRoom s d := by
  rw [HasRoom]
  rcases Struct.addMethod_eq_ok.1 hadd with ⟨hctor, hnone, _⟩ | ⟨hctor, hnew, _⟩
  · rwa [if_pos hctor]
  · rwa [if_neg hctor]

theorem declareMethod_eq_ok (d : MethodDef) (hkind : d.kind ≠ .start)
    (hscope : t.scope.struct? = some n) (hs : t.struct? n = some s) :
    (declareMethod d.name d.kind d.returnType).run t = .ok () t' ↔ HasRoom s d ∧
      t' = (t.withOpenMethod n s { d with params := [], locals := [] }).takeNotes
        (t.noteTypes (returnToken d.kind d.returnType).toList) := by
  rw [run_declareMethod d.name hkind, run_declareTyped]
  simp only [scope_noteOptional, hscope, struct?_noteOptional, hs, Option.map_some]
  rw [show typeOf (returnToken d.kind d.returnType) = d.returns from rfl]
  by_cases hroom : HasRoom s d
  · rw [addMethod_of_hasRoom d hroom]
    have htable : { t.noteOptional (returnToken d.kind d.returnType) with
        structs := (t.noteOptional (returnToken d.kind d.returnType)).structs.insert n
          (s.withMethod { d with params := [], locals := [] })
        scope := methodScope n d.kind d.name } =
        (t.withOpenMethod n s { d with params := [], locals := [] }).takeNotes
          (t.noteTypes (returnToken d.kind d.returnType).toList) := by
      cases returnToken d.kind d.returnType with
      | none => rfl
      | some token =>
        rw [noteOptional, noteType_eq]
        rfl
    simp only [hroom, true_and, EStateM.Result.ok.injEq, ← htable, eq_comm]
  · cases hadd : s.addMethod d.name d.kind d.returns with
    | ok s' => exact absurd (hasRoom_of_addMethod hadd) hroom
    | error e => simp [hroom]

theorem contains_withOpenMethod (hs : t.struct? n = some s) (d : MethodDef) (other : String) :
    (t.withOpenMethod n s d).contains other = t.contains other :=
  contains_setStruct hs (s.withMethod d) other

/-- Bindings are added to the method that is open in a struct: the definition `d` becomes `d'`. -/
theorem forM_bind_withOpenMethod (hs : t.struct? n = some s)
    {declare : VarDef → Declaring Unit} {add : Method → VarDef → Except SemanticError Method}
    {d d' : MethodDef} {types : List Token} {vs : List VarDef} {free : Prop}
    (hdeclare : ∀ u v, u.scope = methodScope n d.kind d.name →
      (declare v).run u = (modifyOpenMethod v.name (add · v)).run (u.noteType v.ty))
    (hfold : ∀ owner slot m', vs.foldlM add (d.method owner slot) = .ok m' ↔
      free ∧ m' = d'.method owner slot)
    (hname : d'.name = d.name) (hkind : d'.kind = d.kind) :
    (vs.forM declare).run ((t.withOpenMethod n s d).takeNotes (t.noteTypes types)) = .ok () t' ↔
      free ∧ t' = (t.withOpenMethod n s d').takeNotes (t.noteTypes (types ++ vs.map (·.ty))) := by
  have hnotes := pendingTypes_noteTypes_congr (t := t.noteTypes types)
    (u := (t.withOpenMethod n s d).takeNotes (t.noteTypes types))
    (fun m => (contains_withOpenMethod hs d m).trans (contains_noteTypes t types m).symm) rfl
    (vs.map (·.ty))
  have hopen := (openMethod?_takeNotes (t.withOpenMethod n s d) (t.noteTypes types)).trans
    (openMethod?_withOpenMethod d)
  rw [forM_bind_eq_ok (t := (t.withOpenMethod n s d).takeNotes (t.noteTypes types)) hdeclare hopen]
  simp only [hfold, and_assoc, exists_and_left, exists_eq_left, setOpenMethod_takeNotes,
    setOpenMethod_withOpenMethod d d' hname hkind, takeNotes_congr _ hnotes, noteTypes_noteTypes]
  rfl

/-- A method is accepted in an impl block when there is room for it and its names are distinct. -/
theorem declare_method_eq_ok (impl : Token) (d : MethodDef) (hscope : t.scope.struct? = some n)
    (hs : t.struct? n = some s) :
    (d.declare impl).run t = .ok () t' ↔ (d.kind ≠ .start ∧ HasRoom s d ∧ d.Distinct) ∧
      t' = (t.withOpenMethod n s d).takeNotes (t.noteTypes d.types) := by
  by_cases hkind : d.kind = .start
  · have hrun : (d.declare impl).run t =
        .error ⟨.badAccess (.startInImpl impl.lexeme), d.name.position⟩ t := by
      rw [MethodDef.declare, if_pos hkind]
      rfl
    simp [hrun, hkind]
  have hsplit : (d.declare impl).run t = .ok () t' ↔ ∃ t₁,
      (declareMethod d.name d.kind d.returnType).run t = .ok () t₁ ∧ ∃ t₂,
      (d.params.forM fun p => declareParam p.name p.ty).run t₁ = .ok () t₂ ∧
      (d.locals.forM fun v => declareVar v.name v.ty false).run t₂ = .ok () t' := by
    rw [MethodDef.declare, if_neg hkind]
    constructor
    · intro hrun
      obtain ⟨⟨⟩, t₁, h₁, hrun⟩ := run_bind_eq_ok.1 hrun
      obtain ⟨⟨⟩, t₂, h₂, h₃⟩ := run_bind_eq_ok.1 hrun
      exact ⟨t₁, h₁, t₂, h₂, h₃⟩
    · rintro ⟨t₁, h₁, t₂, h₂, h₃⟩
      exact run_bind_eq_ok.2 ⟨(), t₁, h₁, run_bind_eq_ok.2 ⟨(), t₂, h₂, h₃⟩⟩
  have hfoldParams (owner : String) (slot : Nat) (m' : Method) :
      d.params.foldlM (fun m v => m.addParam v.name (Ty.ofName v.ty.lexeme))
        ({ d with params := [], locals := [] }.method owner slot) = .ok m' ↔
      (d.params.map (·.name.lexeme)).Nodup ∧ m' = { d with locals := [] }.method owner slot := by
    simp [foldlM_addParam_eq_ok, MethodDef.method, MethodDef.returns]
  have hparams (t₂ : SymbolTable) : (d.params.forM fun p => declareParam p.name p.ty).run
      ((t.withOpenMethod n s { d with params := [], locals := [] }).takeNotes
        (t.noteTypes (returnToken d.kind d.returnType).toList)) = .ok () t₂ ↔ _ :=
    forM_bind_withOpenMethod hs (fun u v _ => run_declareParam v.name v.ty u) hfoldParams rfl rfl
  have hfoldLocals (owner : String) (slot : Nat) (m' : Method) :
      d.locals.foldlM (fun m v => m.addLocal v.name (Ty.ofName v.ty.lexeme))
        ({ d with locals := [] }.method owner slot) = .ok m' ↔
      ((∀ v ∈ d.locals, v.name.lexeme ∉ d.params.map (·.name.lexeme)) ∧
        (d.locals.map (·.name.lexeme)).Nodup) ∧ m' = d.method owner slot := by
    simp [foldlM_addLocal_eq_ok, MethodDef.method, MethodDef.returns, Function.comp_def,
      and_assoc, Binding.name, VarDef.binding]
  have hdeclareLocal (u : SymbolTable) (v : VarDef) (hu : u.scope = methodScope n d.kind d.name) :
      (declareVar v.name v.ty false).run u =
        (modifyOpenMethod v.name (·.addLocal v.name (Ty.ofName v.ty.lexeme))).run
          (u.noteType v.ty) := by
    rw [run_declareVar, hu]
    by_cases hctor : d.kind = .constructor <;> simp [methodScope, hctor]
  have hlocals : (d.locals.forM fun v => declareVar v.name v.ty false).run
      ((t.withOpenMethod n s { d with locals := [] }).takeNotes
        (t.noteTypes ((returnToken d.kind d.returnType).toList ++ d.params.map (·.ty)))) =
        .ok () t' ↔ _ :=
    forM_bind_withOpenMethod hs hdeclareLocal hfoldLocals rfl rfl
  rw [hsplit]
  simp only [declareMethod_eq_ok d hkind hscope hs, and_assoc, exists_and_left, exists_eq_left,
    hparams, hlocals]
  rw [MethodDef.Distinct, MethodDef.types]
  constructor
  · rintro ⟨hroom, hparamNames, hfree, hlocalNames, rfl⟩
    exact ⟨hkind, hroom, ⟨hparamNames, hlocalNames, hfree⟩, rfl⟩
  · rintro ⟨_, hroom, ⟨hparamNames, hlocalNames, hfree⟩, rfl⟩
    exact ⟨hroom, hparamNames, hfree, hlocalNames, rfl⟩

/-! ## Items -/

/-- The table with a struct in its place, its form recorded, and the struct open. -/
def enter (t : SymbolTable) (token : Token) (parent : Option Token) (form : Form) : SymbolTable :=
  (t.place token parent form).enroll token.lexeme form

/-- Whether a struct can take its place. -/
def CanEnter (t : SymbolTable) (token : Token) (parent : Option Token) (form : Form) : Prop :=
  t.structRefusal? token parent form = none ∧
    (t.place token parent form).isCyclic token.lexeme = false

theorem declareStruct_eq_ok (token : Token) (parent : Option Token) (form : Form) :
    (declareStruct token parent form).run t = .ok () t' ↔
      t.CanEnter token (parentToken form parent) form ∧
        t' = t.enter token (parentToken form parent) form := by
  rw [run_declareStruct, CanEnter, enter]
  cases t.structRefusal? token (parentToken form parent) form with
  | some refusal => simp
  | none =>
    cases hcycle : (t.place token (parentToken form parent) form).isCyclic token.lexeme with
    | true => simp [hcycle]
    | false => simp [hcycle, eq_comm]

/-- Whether a struct has room for an attribute. -/
def HasAttributeRoom (s : Struct) (a : AttrDef) : Prop :=
  s.attributes.contains a.name.lexeme = false

/-- Whether a method is accepted in an impl block. -/
def AcceptsMethod (s : Struct) (d : MethodDef) : Prop :=
  d.kind ≠ .start ∧ HasRoom s d ∧ d.Distinct

theorem run_bind_closeScope_eq_ok {x y : Declaring Unit} :
    (do x; y; closeScope : Declaring Unit).run t = .ok () t' ↔
      ∃ t₁, x.run t = .ok () t₁ ∧ (do y; closeScope : Declaring Unit).run t₁ = .ok () t' := by
  rw [run_bind_eq_ok]
  constructor
  · rintro ⟨⟨⟩, t₁, hx, hrest⟩
    exact ⟨t₁, hx, hrest⟩
  · rintro ⟨t₁, hx, hrest⟩
    exact ⟨(), t₁, hx, hrest⟩

/-- A struct item is accepted when the struct can take its place and its attributes are distinct. -/
theorem declare_struct_eq_ok (d : StructDef)
    (hs : (t.enter d.name d.parent .structural).struct? d.name.lexeme = some s) :
    (Item.struct d).declare.run t = .ok () t' ↔
      t.CanEnter d.name d.parent .structural ∧
      AcceptsAll HasAttributeRoom Struct.withAttribute s d.attributes ∧
      t' = (((t.enter d.name d.parent .structural).setStruct d.name.lexeme
        (d.attributes.foldl Struct.withAttribute s)).takeNotes
          ((t.enter d.name d.parent .structural).noteTypes
            (d.attributes.map AttrDef.ty))).closed := by
  rw [Item.declare, run_bind_closeScope_eq_ok, List.map_eq_flatMap]
  simp only [declareStruct_eq_ok, and_assoc, exists_and_left, exists_eq_left]
  refine and_congr_right fun _ => ?_
  exact forM_members_eq_ok (· = .struct d.name.lexeme) (fun _ => .struct d.name.lexeme)
    (fun u s a u' hscope hs => declareVar_attribute_eq_ok hscope hs a) (fun _ => rfl) rfl hs
    d.attributes

/-- An impl block is accepted when the struct can take its place and its methods are accepted. -/
theorem declare_impl_eq_ok (d : ImplDef)
    (hs : (t.enter d.name none .implementation).struct? d.name.lexeme = some s) :
    (Item.impl d).declare.run t = .ok () t' ↔
      t.CanEnter d.name none .implementation ∧
      AcceptsAll AcceptsMethod Struct.withMethod s d.methods ∧
      t' = (((t.enter d.name none .implementation).setStruct d.name.lexeme
        (d.methods.foldl Struct.withMethod s)).takeNotes
          ((t.enter d.name none .implementation).noteTypes
            (d.methods.flatMap (·.types)))).closed := by
  have hscope (m : MethodDef) :
      (methodScope d.name.lexeme m.kind m.name).struct? = some d.name.lexeme := by
    rw [methodScope]
    split <;> rfl
  rw [Item.declare, run_bind_closeScope_eq_ok]
  simp only [declareStruct_eq_ok, and_assoc, exists_and_left, exists_eq_left]
  refine and_congr_right fun _ => ?_
  exact forM_members_eq_ok (·.struct? = some d.name.lexeme) _
    (fun u s m u' hscope hs => declare_method_eq_ok d.name m hscope hs) hscope rfl hs d.methods

/-- A start item is accepted when it is the first one and its locals are distinct. -/
theorem declare_start_eq_ok (d : StartDef) :
    (Item.start d).declare.run t = .ok () t' ↔
      t.start = none ∧ (d.locals.map (·.name.lexeme)).Nodup ∧
      t' = ({ t with start := some d.method }.takeNotes
        (t.noteTypes (d.locals.map VarDef.ty))).closed := by
  rw [Item.declare, run_bind_closeScope_eq_ok]
  simp only [run_declareMethod_start]
  cases hstart : t.start with
  | some m => simp
  | none =>
    -- The locals are added to the start method, which is open.
    let opened : SymbolTable :=
      { t with start := some (.declare d.token none .start .void 0), scope := .start }
    have hopen : opened.openMethod? = some (.declare d.token none .start .void 0) := rfl
    have hlocals (u : SymbolTable) :
        (d.locals.forM fun v => declareVar v.name v.ty false).run opened = .ok () u ↔ _ :=
      forM_bind_eq_ok (fun u (v : VarDef) (hu : u.scope = opened.scope) => show
        (declareVar v.name v.ty false).run u = (modifyOpenMethod v.name
          (·.addLocal v.name (Ty.ofName v.ty.lexeme))).run (u.noteType v.ty) by
        rw [run_declareVar, hu]) hopen d.locals
    have hnotes := pendingTypes_noteTypes_congr (u := opened) (t := t) (fun _ => rfl) rfl
      (d.locals.map VarDef.ty)
    have hfold (m : Method) : d.locals.foldlM
        (fun m v => m.addLocal v.name (Ty.ofName v.ty.lexeme))
        (Method.declare d.token none .start .void 0) = .ok m ↔
        (d.locals.map (·.name.lexeme)).Nodup ∧ m = d.method := by
      simp [foldlM_addLocal_eq_ok, Method.declare, StartDef.method]
    simp only [Option.isSome_none, Bool.false_eq_true, if_false, EStateM.Result.ok.injEq, true_and,
      exists_eq_left']
    rw [run_bind_eq_ok]
    constructor
    · rintro ⟨⟨⟩, u, hrun, hclose⟩
      obtain ⟨m, hm, rfl⟩ := (hlocals u).1 hrun
      obtain ⟨hnodup, rfl⟩ := (hfold m).1 hm
      rw [takeNotes_congr _ hnotes] at hclose
      cases hclose
      exact ⟨hnodup, rfl⟩
    · rintro ⟨hnodup, rfl⟩
      refine ⟨(), _, (hlocals _).2 ⟨_, (hfold _).2 ⟨hnodup, rfl⟩, rfl⟩, ?_⟩
      rw [takeNotes_congr _ hnotes]
      rfl

end SymbolTable

end StructLang
