import StructLang.Proofs.Calls
import StructLang.Proofs.ItemRun

/-!
# Parameters and local variables of one name

A local variable is refused when its name is taken by a parameter.  A parameter is compared with the
other parameters only, so a parameter that comes after a local variable of its name is accepted, and
the method has both.  `clashing_declared_iff`: this is the only way to a method with a parameter and
a local variable of one name.

* `methodAt?` is the method, the constructor or the start method that a scope stands for.  A call
  that declares a parameter or a local variable changes the open one only
  (`methodAt?_setOpenMethod_of_ne`); what other calls do to the methods is `Grows`.
* `clashing_call` is the step: a clash stays, and a new one comes from a call that `repeatsLocal`.
-/

namespace StructLang

namespace Method

variable {m m' : Method} {token : Token} {ty : Ty}

/-- Whether a local variable has the name of a parameter. -/
def clashes (m : Method) : Bool := m.locals.any fun b => (m.param? b.name).isSome

theorem clashes_iff : m.clashes = true ↔ ∃ b ∈ m.locals, b.name ∈ m.params.map (·.name) := by
  simp only [clashes, List.any_eq_true, param?_isSome]

/-- A new parameter clashes with a local variable of its name. -/
theorem clashes_addParam (h : m.addParam token ty = .ok m') :
    m'.clashes = true ↔ m.clashes = true ∨ (m.local? token.lexeme).isSome = true := by
  rw [addParam] at h
  split at h
  · cases h
  · cases h
    rw [clashes_iff, clashes_iff, local?_isSome]
    simp [and_or_left, exists_or, Binding.name]

/-- A new local variable clashes with nothing. -/
theorem clashes_addLocal (h : m.addLocal token ty = .ok m') :
    m'.clashes = true ↔ m.clashes = true := by
  rw [addLocal] at h
  split at h
  · cases h
  · next hfree =>
    cases h
    rw [Bool.or_eq_true, not_or, param?_isSome] at hfree
    rw [clashes_iff, clashes_iff]
    simp only [List.mem_append, List.mem_singleton, or_and_right, exists_or, exists_eq_left]
    exact or_iff_left hfree.2

end Method

namespace SymbolTable

variable {t t' : SymbolTable} {m m' : Method}

/-! ## The methods of a table -/

/-- The method that a scope stands for. -/
def methodAt? (t : SymbolTable) : Scope → Option Method
  | .closed | .struct _ => none
  | .start => t.start
  | .constructor owner => (t.struct? owner).bind (·.constructor)
  | .method owner name => (t.struct? owner).bind (·.methods.get? name)

theorem openMethod?_eq (t : SymbolTable) : t.openMethod? = t.methodAt? t.scope := rfl

theorem methodAt?_congr (hstart : t'.start = t.start) (hstruct : ∀ n, t'.struct? n = t.struct? n)
    (scope : Scope) : t'.methodAt? scope = t.methodAt? scope := by
  cases scope <;> simp only [methodAt?, hstart, hstruct]

theorem methodAt?_noteType (t : SymbolTable) (token : Token) (scope : Scope) :
    (t.noteType token).methodAt? scope = t.methodAt? scope :=
  methodAt?_congr (start_noteType t token) (struct?_noteType t token) scope

/-- What is read off a struct stays when the struct keeps it. -/
theorem bind_modify {f : Struct → Struct} {read : Struct → Option Method} {owner n : String}
    (h : n = owner → ∀ s, read (f s) = read s) :
    ((t.structs.modify owner f).get? n).bind read = (t.struct? n).bind read := by
  rw [NameMap.get?_modify]
  split
  · next hn =>
    subst hn
    rw [struct?]
    cases t.structs.get? n with
    | none => rfl
    | some s => exact h rfl s
  · rfl

/-- Another record for the open method leaves the other methods as they are. -/
theorem methodAt?_setOpenMethod_of_ne {scope : Scope} (h : scope ≠ t.scope) :
    (t.setOpenMethod m).methodAt? scope = t.methodAt? scope := by
  unfold setOpenMethod
  split
  · rfl
  · rfl
  · next hstart =>
    rw [hstart] at h
    cases scope with
    | start => exact absurd rfl h
    | closed | struct owner | constructor owner | method owner name => rfl
  · next owner hscope =>
    rw [hscope] at h
    cases scope with
    | closed | struct n | start => rfl
    | constructor n =>
      refine bind_modify fun hn => ?_
      exact absurd (congrArg Scope.constructor hn) h
    | method n name => exact bind_modify fun _ _ => rfl
  · next owner name hscope =>
    rw [hscope] at h
    cases scope with
    | closed | struct n | start => rfl
    | constructor n => exact bind_modify fun _ _ => rfl
    | method n other =>
      refine bind_modify fun hn s => ?_
      have hne : other ≠ name := fun hother => h (by rw [hn, hother])
      exact (NameMap.get?_insert _ _ _ _).trans (if_neg hne)

/-- A method has the name of a parameter for one of its local variables. -/
def Clashing (t : SymbolTable) : Prop := ∃ scope m, t.methodAt? scope = some m ∧ m.clashes = true

/-- A parameter or a local variable clashes only in the open method. -/
theorem clashing_setOpenMethod (hopen : t.openMethod? = some m) {added : Prop}
    (hadded : m'.clashes = true ↔ m.clashes = true ∨ added) :
    (t.setOpenMethod m').Clashing ↔ t.Clashing ∨ added := by
  have hset : (t.setOpenMethod m').methodAt? t.scope = some m' := by
    rw [← openMethod?_setOpenMethod hopen, openMethod?_eq, scope_setOpenMethod]
  rw [openMethod?_eq] at hopen
  constructor
  · rintro ⟨scope, c, hc, hclash⟩
    by_cases hscope : scope = t.scope
    · rw [hscope, hset] at hc
      cases hc
      exact (hadded.1 hclash).imp_left fun hold => ⟨t.scope, m, hopen, hold⟩
    · rw [methodAt?_setOpenMethod_of_ne hscope] at hc
      exact .inl ⟨scope, c, hc, hclash⟩
  · rintro (⟨scope, c, hc, hclash⟩ | hnew)
    · by_cases hscope : scope = t.scope
      · rw [hscope, hopen] at hc
        cases hc
        exact ⟨t.scope, m', hset, hadded.2 (.inl hclash)⟩
      · exact ⟨scope, c, (methodAt?_setOpenMethod_of_ne hscope).trans hc, hclash⟩
    · exact ⟨t.scope, m', hset, hadded.2 (.inr hnew)⟩

/-! ## Calls that bind nothing -/

/-- A method stays as it is, or it is new and has no local variables. -/
def Grown (before after : Option Method) : Prop :=
  after = before ∨ before = none ∧ ∀ m, after = some m → m.locals = []

/-- Every method stays as it is, or it is new and has no local variables. -/
def Grows (t t' : SymbolTable) : Prop := ∀ scope, Grown (t.methodAt? scope) (t'.methodAt? scope)

theorem Grows.of_eq (h : ∀ scope, t'.methodAt? scope = t.methodAt? scope) : t.Grows t' :=
  fun scope => .inl (h scope)

theorem Grows.clashing_iff (h : t.Grows t') : t'.Clashing ↔ t.Clashing := by
  constructor
  · rintro ⟨scope, m, hm, hclash⟩
    rcases h scope with hsame | ⟨_, hempty⟩
    · exact ⟨scope, m, hsame ▸ hm, hclash⟩
    · rw [Method.clashes, hempty m hm] at hclash
      cases hclash
  · rintro ⟨scope, m, hm, hclash⟩
    rcases h scope with hsame | ⟨hnone, _⟩
    · exact ⟨scope, m, hsame.trans hm, hclash⟩
    · rw [hnone] at hm
      cases hm

/-- A struct that takes its place has the methods that it had, and a new one has none. -/
theorem methodAt?_place {token : Token} {parent : Option Token} {form : Form}
    (hne : ∀ p, parent = some p → p.lexeme ≠ token.lexeme) (scope : Scope) :
    (t.place token parent form).methodAt? scope = t.methodAt? scope := by
  have hread {read : Struct → Option Method} (hdetached : ∀ s, read s.detached = read s)
      (hnew : read (Struct.declare token none) = none) (n : String) :
      ((t.place token parent form).struct? n).bind read = (t.struct? n).bind read := by
    have hbind (o : Option Struct) : o.bind read = (o.map Struct.detached).bind read := by
      cases o with
      | none => rfl
      | some s => exact (hdetached s).symm
    rw [hbind, detached_place hne, hbind (t.struct? n)]
    split
    · next hfresh =>
      rw [hfresh.1, contains_eq_false_iff_struct?.1 hfresh.2]
      exact (hdetached _).trans hnew
    · rfl
  cases scope with
  | closed | struct n => rfl
  | start =>
    show (t.place token parent form).start = t.start
    rw [place_eq hne]
  | constructor n => exact hread (fun _ => rfl) rfl n
  | method n name => exact hread (fun _ => rfl) rfl n

theorem methodAt?_enroll (t : SymbolTable) (name : String) (form : Form) (scope : Scope) :
    (t.enroll name form).methodAt? scope = t.methodAt? scope := by
  cases scope with
  | closed | struct n | start => rfl
  | constructor n | method n other =>
    refine bind_modify fun _ s => ?_
    cases form <;> rfl

theorem grows_declareStruct (t : SymbolTable) (token : Token) (parent : Option Token)
    (form : Form) : t.Grows (stateAfter (declareStruct token parent form) t) := by
  rw [stateAfter, run_declareStruct]
  cases hfree : t.structRefusal? token (parentToken form parent) form with
  | some refusal => exact .of_eq fun _ => rfl
  | none =>
    have hne := fun p hp => ((structRefusal?_eq_none_iff.1 hfree).2.2 p hp).2
    dsimp only
    cases (t.place token (parentToken form parent) form).isCyclic token.lexeme with
    | true => exact .of_eq (methodAt?_place hne)
    | false =>
      exact .of_eq fun scope => (methodAt?_enroll _ _ _ scope).trans (methodAt?_place hne scope)

/-- One struct gets another record. -/
theorem Grows.insert {owner : String} {s s' : Struct} (hs : t.struct? owner = some s)
    (hstructs : t'.structs = t.structs.insert owner s') (hstart : t'.start = t.start)
    (hconstructor : Grown s.constructor s'.constructor)
    (hmethods : ∀ name, Grown (s.methods.get? name) (s'.methods.get? name)) : t.Grows t' := by
  have hread {read : Struct → Option Method} (hgrown : Grown (read s) (read s')) (n : String) :
      Grown ((t.struct? n).bind read) ((t'.struct? n).bind read) := by
    rw [struct?, struct?, hstructs, NameMap.get?_insert]
    split
    · next hn =>
      rw [hn, show t.structs.get? owner = some s from hs]
      exact hgrown
    · exact .inl rfl
  intro scope
  cases scope with
  | closed | struct n => exact .inl rfl
  | start => exact .inl hstart
  | constructor n => exact hread hconstructor n
  | method n name => exact hread (hmethods name) n

theorem grown_addMethod {s s' : Struct} {token : Token} {kind : MethodKind} {ty : Ty}
    (hadd : s.addMethod token kind ty = .ok s') : Grown s.constructor s'.constructor ∧
      ∀ name, Grown (s.methods.get? name) (s'.methods.get? name) := by
  rcases Struct.addMethod_eq_ok.1 hadd with ⟨_, hnone, rfl⟩ | ⟨_, hnone, rfl⟩
  · refine ⟨.inr ⟨hnone, ?_⟩, fun _ => .inl rfl⟩
    rintro m ⟨⟩
    rfl
  · refine ⟨.inl rfl, fun name => ?_⟩
    by_cases hname : name = token.lexeme
    · refine .inr ⟨hname ▸ NameMap.contains_eq_false_iff.1 hnone, fun m hm => ?_⟩
      rw [hname, NameMap.get?_insert, if_pos rfl] at hm
      cases hm
      rfl
    · exact .inl ((NameMap.get?_insert _ _ _ _).trans (if_neg hname))

theorem grows_noteOptional (t : SymbolTable) (token : Option Token) :
    t.Grows (t.noteOptional token) := by
  cases token with
  | none => exact .of_eq fun _ => rfl
  | some token => exact .of_eq (methodAt?_noteType t token)

theorem clashing_declareMethod (t : SymbolTable) (token : Token) (kind : MethodKind)
    (returnType : Option Token) :
    (stateAfter (declareMethod token kind returnType) t).Clashing ↔ t.Clashing := by
  rw [stateAfter]
  by_cases hkind : kind = .start
  · rw [hkind, run_declareMethod_start]
    cases hstart : t.start with
    | some m => exact Iff.rfl
    | none =>
      apply Grows.clashing_iff
      intro scope
      cases scope with
      | start =>
        refine .inr ⟨hstart, ?_⟩
        rintro m ⟨⟩
        rfl
      | closed | struct n | constructor n | method n name => exact .inl rfl
  · rw [run_declareMethod token hkind, run_declareTyped, ← (grows_noteOptional t _).clashing_iff]
    generalize t.noteOptional (returnToken kind returnType) = u
    cases u.scope.struct? with
    | none => exact Iff.rfl
    | some owner =>
      dsimp only
      cases hs : u.struct? owner with
      | none => exact (Grows.of_eq fun _ => rfl).clashing_iff
      | some s =>
        rw [Option.map_some]
        cases hadd : s.addMethod token kind (typeOf (returnToken kind returnType)) with
        | error e => exact Iff.rfl
        | ok s' =>
          obtain ⟨hconstructor, hmethods⟩ := grown_addMethod hadd
          apply Grows.clashing_iff
          exact .insert hs rfl rfl hconstructor hmethods

/-! ## Calls that bind a name -/

/-- A binding is added to the open method; `added` says when it clashes with what is there. -/
theorem clashing_modifyOpenMethod (t : SymbolTable) (token : Token)
    {f : Method → Except SemanticError Method} {added : Method → Prop}
    (hadded : ∀ m m', f m = .ok m' → (m'.clashes = true ↔ m.clashes = true ∨ added m)) :
    (stateAfter (modifyOpenMethod token f) t).Clashing ↔
      t.Clashing ∨ ∃ m m', t.openMethod? = some m ∧ f m = .ok m' ∧ added m := by
  rw [stateAfter, run_modifyOpenMethod]
  cases hopen : t.openMethod? with
  | none => simp
  | some m =>
    rw [Option.map_some]
    cases hf : f m with
    | error e => simp [hf]
    | ok m' =>
      rw [show (∃ m₁ m₂, some m = some m₁ ∧ f m₁ = .ok m₂ ∧ added m₁) ↔ added m by simp [hf]]
      exact clashing_setOpenMethod hopen (hadded m m' hf)

/-- Whether a call is accepted that declares a parameter with the name of a local variable of the
open method. -/
def repeatsLocal (t : SymbolTable) : Call → Bool
  | .param token type =>
    succeeds (declareParam token type) t &&
      t.openMethod?.any fun m => (m.local? token.lexeme).isSome
  | _ => false

theorem clashing_declareParam (t : SymbolTable) (token type : Token) :
    (stateAfter (declareParam token type) t).Clashing ↔
      t.Clashing ∨ t.repeatsLocal (.param token type) = true := by
  have hnote : (t.noteType type).Clashing ↔ t.Clashing :=
    (Grows.of_eq (methodAt?_noteType t type)).clashing_iff
  have hbind := clashing_modifyOpenMethod (t.noteType type) token
    (f := (·.addParam token (Ty.ofName type.lexeme))) fun m m' => Method.clashes_addParam
  rw [stateAfter] at hbind
  rw [stateAfter, run_declareParam, hbind, hnote, repeatsLocal, succeeds, run_declareParam,
    run_modifyOpenMethod, openMethod?_noteType]
  cases t.openMethod? with
  | none => simp
  | some m =>
    rw [Option.map_some]
    cases hadd : m.addParam token (Ty.ofName type.lexeme) <;> simp [hadd]

theorem clashing_declareVar (t : SymbolTable) (token type : Token) (isPrivate : Bool) :
    (stateAfter (declareVar token type isPrivate) t).Clashing ↔ t.Clashing := by
  have hnote : (t.noteType type).Clashing ↔ t.Clashing :=
    (Grows.of_eq (methodAt?_noteType t type)).clashing_iff
  have hkeeps (m m' : Method) (hadd : m.addLocal token (Ty.ofName type.lexeme) = .ok m') :
      m'.clashes = true ↔ m.clashes = true ∨ False := by
    rw [Method.clashes_addLocal hadd, or_false]
  have hlocal := clashing_modifyOpenMethod (t.noteType type) token hkeeps
  simp only [and_false, exists_false, or_false] at hlocal
  rw [stateAfter] at hlocal
  rw [stateAfter, run_declareVar, ← hnote]
  cases t.scope with
  | closed => exact Iff.rfl
  | start | constructor owner | method owner name => exact hlocal
  | struct owner =>
    dsimp only
    rw [← struct?_noteType t type]
    cases hs : (t.noteType type).struct? owner with
    | none => exact Iff.rfl
    | some s =>
      rw [Option.map_some]
      cases hadd : s.addAttribute token (Ty.ofName type.lexeme) isPrivate with
      | error e => exact Iff.rfl
      | ok s' =>
        obtain ⟨_, rfl⟩ := Struct.addAttribute_eq_ok.1 hadd
        apply Grows.clashing_iff
        exact .insert hs rfl rfl (.inl rfl) fun _ => .inl rfl

/-! ## All calls -/

/-- One call leaves a clash, and makes one if it repeats the name of a local variable. -/
theorem clashing_call (t : SymbolTable) (call : Call) :
    (stateAfter call.run t).Clashing ↔ t.Clashing ∨ t.repeatsLocal call = true := by
  have hother (h : t.repeatsLocal call = false) :
      t.Clashing ∨ t.repeatsLocal call = true ↔ t.Clashing := by simp [h]
  cases call with
  | struct token parent form =>
    rw [hother rfl]
    exact (grows_declareStruct t token parent form).clashing_iff
  | method token kind returnType =>
    rw [hother rfl]
    exact clashing_declareMethod t token kind returnType
  | param token type => exact clashing_declareParam t token type
  | var token type isPrivate =>
    rw [hother rfl]
    exact clashing_declareVar t token type isPrivate
  | close =>
    rw [hother rfl]
    exact (Grows.of_eq fun _ => rfl).clashing_iff

theorem clashing_after (t : SymbolTable) (calls : List Call) :
    (t.after calls).Clashing ↔ t.Clashing ∨
      ∃ before call after, calls = before ++ call :: after ∧
        (t.after before).repeatsLocal call = true := by
  induction calls generalizing t with
  | nil => simp [after]
  | cons first calls ih =>
    rw [show t.after (first :: calls) = (stateAfter first.run t).after calls from rfl, ih,
      clashing_call, or_assoc]
    refine or_congr_right ?_
    constructor
    · rintro (hfirst | ⟨before, call, after, rfl, hcall⟩)
      · exact ⟨[], first, calls, rfl, hfirst⟩
      · exact ⟨first :: before, call, after, rfl, hcall⟩
    · rintro ⟨before, call, after, hcalls, hcall⟩
      cases before with
      | nil =>
        cases hcalls
        exact .inl hcall
      | cons _ before =>
        cases hcalls
        exact .inr ⟨before, call, after, rfl, hcall⟩

theorem locals_builtin : ∀ e ∈ Builtin.structs.entries, e.2.constructor = none ∧
    ∀ c ∈ e.2.methods.entries, c.2.locals = [] := by
  decide

/-- The built-in methods have no local variables. -/
theorem not_clashing_new : ¬ new.Clashing := by
  rintro ⟨scope, m, hm, hclash⟩
  have hlocals : m.locals = [] := by
    cases scope with
    | closed | struct n | start => cases hm
    | constructor n =>
      obtain ⟨s, hs, hm⟩ := Option.bind_eq_some_iff.1 hm
      have hs : (n, s) ∈ Builtin.structs.entries := (NameMap.mem_entries_iff _ _ _).2 hs
      rw [(locals_builtin _ hs).1] at hm
      cases hm
    | method n name =>
      obtain ⟨s, hs, hm⟩ := Option.bind_eq_some_iff.1 hm
      have hs : (n, s) ∈ Builtin.structs.entries := (NameMap.mem_entries_iff _ _ _).2 hs
      exact (locals_builtin _ hs).2 (name, m) ((NameMap.mem_entries_iff _ _ _).2 hm)
  rw [Method.clashes, hlocals] at hclash
  cases hclash

/-- Calls, accepted or not, leave a method with a parameter and a local variable of one name exactly
when one of them declares a parameter after a local variable of its name. -/
theorem clashing_declared_iff (calls : List Call) :
    (declared calls).Clashing ↔ ∃ before call after, calls = before ++ call :: after ∧
      (declared before).repeatsLocal call = true := by
  rw [declared, clashing_after, or_iff_right not_clashing_new]
  rfl

/-- A method with a local variable and then a parameter of one name. -/
def repeatingCalls : List Call :=
  let name (s : String) (line : UInt32) : Token := ⟨.objectId, s, line, 5⟩
  let int : Token := ⟨.intType, "Int", 1, 1⟩
  [.struct ⟨.structId, "A", 1, 8⟩ none .implementation, .method (name "m" 2) .onInstance none,
    .var (name "x" 3) int false, .param (name "x" 4) int]

theorem clashing_of_repeatingCalls :
    succeeds (repeatingCalls.forM Call.run) new = true ∧ (declared repeatingCalls).Clashing := by
  have hmethod :
      ((declared repeatingCalls).methodAt? (.method "A" "m")).any Method.clashes = true := by
    decide +kernel
  obtain ⟨m, hm, hclash⟩ := (Option.any_eq_true _ _).1 hmethod
  exact ⟨by decide +kernel, .method "A" "m", m, hm, hclash⟩

end SymbolTable

end StructLang
