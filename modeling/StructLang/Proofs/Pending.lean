import StructLang.Proofs.Parentage
import StructLang.Proofs.TypeNames

/-!
# What is pending

A reference to a struct that is not registered is noted: `pendingParents` lists the structs that
wait for a parent, and `pendingTypes` the tokens that name a type.  The notes for a name go when a
struct of this name is registered.  Calls that fail add notes and remove them too, and nevertheless
the two maps can be read off the calls.

* `NameMap.Pends` says that a map lists the notes for every name that is not known.  It is kept when
  a note is added (`Pends.note`) and when a name becomes known (`Pends.erase`), so both maps are
  treated alike.
* `Call.use?` is the note that a call makes of a type, and `Call.wait?` the one that it makes of a
  parent.  A type is noted before anything else is looked at, so the outcome of the call does not
  matter.  A struct is noted as waiting only by an accepted call: if its parent is not registered it
  stands under the root, and no cycle is found (`isCyclic_place_of_awaited`).
* `pends_declared` is the induction over the calls, and `pendingExact_declared` says what follows
  for a struct that waits and for the first use of a type.
-/

namespace StructLang

/-! ## Notes for unknown names -/

namespace NameMap

variable {α : Type} {m : NameMap (List α)} {known : String → Bool} {notes notes' : String → List α}
  {n : String}

/-- The map lists the notes for every name that is not known, and it has no empty entries. -/
def Pends (m : NameMap (List α)) (known : String → Bool) (notes : String → List α) : Prop :=
  ∀ n, m.get? n = if known n = true ∨ notes n = [] then none else some (notes n)

namespace Pends

theorem congr (h : m.Pends known notes) (hnotes : ∀ n, known n = false → notes' n = notes n) :
    m.Pends known notes' := by
  intro n
  rw [h n]
  cases hn : known n with
  | true => simp
  | false => rw [hnotes n hn]

theorem get?_eq_some_iff (h : m.Pends known notes) {l : List α} :
    m.get? n = some l ↔ known n = false ∧ notes n = l ∧ l ≠ [] := by
  rw [h n]
  refine ⟨fun hl => ?_, fun ⟨hn, heq, hne⟩ => ?_⟩
  · split at hl
    · cases hl
    · next hnot =>
      obtain ⟨hn, hne⟩ := not_or.1 hnot
      cases hl
      exact ⟨Bool.eq_false_iff.2 hn, rfl, hne⟩
  · subst heq
    rw [if_neg]
    simp [hn, hne]

theorem contains_iff (h : m.Pends known notes) :
    m.contains n = true ↔ known n = false ∧ notes n ≠ [] := by
  simp only [NameMap.contains_iff, h.get?_eq_some_iff]
  exact ⟨fun ⟨_, hn, heq, hne⟩ => ⟨hn, heq ▸ hne⟩, fun ⟨hn, hne⟩ => ⟨_, hn, rfl, hne⟩⟩

theorem getD_get? (h : m.Pends known notes) (hn : known n = false) :
    (m.get? n).getD [] = notes n := by
  rw [h n, hn]
  by_cases hnil : notes n = [] <;> simp [hnil]

/-- A note is added for a name that is not known. -/
theorem note (h : m.Pends known notes) (n : String) (a : α) :
    (if known n = true then m else m.insert n ((m.get? n).getD [] ++ [a])).Pends known
      fun k => notes k ++ if k = n then [a] else [] := by
  cases hn : known n with
  | true =>
    rw [if_pos rfl]
    refine h.congr fun k hk => ?_
    have hne : k ≠ n := fun heq => by rw [heq, hn] at hk; cases hk
    rw [if_neg hne, List.append_nil]
  | false =>
    intro k
    rw [if_neg Bool.false_ne_true, get?_insert, h.getD_get? hn]
    by_cases hk : k = n
    · simp [hk, hn]
    · simp [hk, h k]

theorem erase (h : m.Pends known notes) (n : String) :
    (m.erase n).Pends (fun k => decide (k = n) || known k) notes := by
  intro k
  rw [get?_erase]
  by_cases hk : k = n
  · simp [hk]
  · simp [hk, h k]

end Pends

end NameMap

/-! ## The notes of a call -/

namespace Call

/-- The token with which a call uses a struct as a type. -/
def use? (n : String) (call : Call) : Option Token :=
  call.typeToken?.filter fun token => Ty.ofName token.lexeme = .struct n

/-- The note with which a struct waits for its parent, if the call is its struct item. -/
def wait? (p : String) : Call → Option Waiting
  | struct token parent form =>
    ((SymbolTable.parentToken form parent).filter (·.lexeme = p)).map (⟨token.lexeme, ·⟩)
  | method _ _ _ | param _ _ | var _ _ _ | close => none

theorem use?_eq_some_iff {n : String} {call : Call} {token : Token} :
    call.use? n = some token ↔
      call.typeToken? = some token ∧ Ty.ofName token.lexeme = .struct n := by
  unfold use?
  rw [Option.filter_eq_some_iff, decide_eq_true_iff]

end Call

namespace SymbolTable

variable {t : SymbolTable} {uses : String → List Token} {waiting : String → List Waiting}

/-! ## Types -/

theorem pends_noteOptional (h : t.pendingTypes.Pends t.contains uses) (token : Option Token) :
    (t.noteOptional token).pendingTypes.Pends t.contains fun n => uses n ++
      (token.filter fun token => Ty.ofName token.lexeme = .struct n).toList := by
  cases token with
  | none => exact h.congr fun n _ => List.append_nil _
  | some token =>
    show (t.noteType token).pendingTypes.Pends _ _
    unfold noteType
    cases hty : Ty.ofName token.lexeme with
    | struct name =>
      show (if t.contains name = true then t else _).pendingTypes.Pends _ _
      rw [apply_ite SymbolTable.pendingTypes]
      refine (h.note name token).congr fun n _ => ?_
      by_cases hn : n = name
      · simp [Option.filter, hty, hn]
      · simp [Option.filter, hty, hn, Ne.symm hn]
    | prim p | array p | literal p | nil | void =>
      refine h.congr fun n _ => ?_
      simp [Option.filter, hty]

theorem pendingTypes_modifyOpenMethod (t : SymbolTable) (token : Token)
    (f : Method → Except SemanticError Method) :
    (stateAfter (modifyOpenMethod token f) t).pendingTypes = t.pendingTypes := by
  unfold stateAfter
  rw [run_modifyOpenMethod]
  cases t.openMethod?.map f with
  | none => rfl
  | some result =>
    cases result with
    | ok m => exact pendingTypes_setOpenMethod t m
    | error e => rfl

theorem pendingTypes_declareTyped (t : SymbolTable) (token : Token) (kind : MethodKind) (ty : Ty) :
    (stateAfter (declareTyped token kind ty) t).pendingTypes = t.pendingTypes := by
  unfold stateAfter
  rw [run_declareTyped]
  cases t.scope.struct? with
  | none => rfl
  | some owner =>
    cases hadd : (t.struct? owner).map (Struct.addMethod · token kind ty) with
    | none => simp only [hadd]
    | some result => cases result <;> simp only [hadd]

/-- A call for a member notes its type first, and then the types are left alone. -/
theorem pendingTypes_call (t : SymbolTable) {call : Call} (hcall : call.declaresMember = true) :
    (stateAfter call.run t).pendingTypes = (t.noteOptional call.typeToken?).pendingTypes := by
  cases call with
  | struct | close => cases hcall
  | method token kind returnType =>
    by_cases hkind : kind = .start
    · subst hkind
      show (stateAfter (declareMethod token .start returnType) t).pendingTypes = t.pendingTypes
      unfold stateAfter
      rw [run_declareMethod_start]
      cases t.start <;> rfl
    · have htoken : (Call.method token kind returnType).typeToken? =
          returnToken kind returnType := by
        cases kind with
        | start => exact absurd rfl hkind
        | constructor | onInstance | static => rfl
      have htyped := pendingTypes_declareTyped (t.noteOptional (returnToken kind returnType)) token
        kind (typeOf (returnToken kind returnType))
      unfold stateAfter at htyped ⊢
      rw [htoken, Call.run, run_declareMethod token hkind]
      exact htyped
  | param token type =>
    show (stateAfter (declareParam token type) t).pendingTypes = (t.noteType type).pendingTypes
    unfold stateAfter
    rw [run_declareParam]
    exact pendingTypes_modifyOpenMethod _ _ _
  | var token type isPrivate =>
    show (stateAfter (declareVar token type isPrivate) t).pendingTypes =
      (t.noteType type).pendingTypes
    unfold stateAfter
    rw [run_declareVar]
    cases t.scope with
    | closed => rfl
    | start | constructor owner | method owner name => exact pendingTypes_modifyOpenMethod _ _ _
    | struct owner =>
      dsimp only
      cases (t.struct? owner).map
        (Struct.addAttribute · token (Ty.ofName type.lexeme) isPrivate) with
      | none => rfl
      | some result => cases result <;> rfl

/-! ## Structs -/

section Struct

variable {token : Token} {parent : Option Token} {form : Form} {p : String}

theorem pends_await (h : t.pendingParents.Pends t.contains waiting) (child : String)
    (parent : Option Token) :
    (t.await child parent).pendingParents.Pends t.contains fun p => waiting p ++
      ((parent.filter (·.lexeme = p)).map (Waiting.mk child)).toList := by
  cases parent with
  | none => exact h.congr fun p _ => List.append_nil _
  | some q =>
    unfold await
    rw [apply_ite SymbolTable.pendingParents]
    refine (h.note q.lexeme ⟨child, q⟩).congr fun p _ => ?_
    by_cases hp : p = q.lexeme
    · simp [Option.filter, hp]
    · simp [Option.filter, hp, Ne.symm hp]

/-- A struct whose parent is not registered stands under the root. -/
theorem isCyclic_place_of_awaited (h : t.Sound)
    (hfree : t.structRefusal? token parent .structural = none)
    (hparent : parent.map (·.lexeme) = some p) (hp : t.contains p = false) :
    (t.place token parent .structural).isCyclic token.lexeme = false := by
  have hne := fun p hp => ((structRefusal?_eq_none_iff.1 hfree).2.2 p hp).2
  have hself : p ≠ token.lexeme := by
    obtain ⟨q, hq, hlexeme⟩ := Option.map_eq_some_iff.1 hparent
    exact hlexeme ▸ hne q hq
  have hplaced : (t.place token parent .structural).contains p = false := by
    simp [contains_place hne, hself, hp]
  have hstands := (settled_place h hfree).stands
  rw [home_of_not_contains hparent hplaced] at hstands
  exact isCyclic_of_extends_root hstands

theorem run_declareStruct_of_refusal {refusal : SemanticError}
    (hrefusal : t.structRefusal? token (parentToken form parent) form = some refusal) :
    (declareStruct token parent form).run t = .error refusal t := by
  rw [run_declareStruct, hrefusal]

/-- What is pending after a declaration of a struct does not depend on its outcome, unless it is
refused before it changes the table. -/
theorem pending_declareStruct
    (hfree : t.structRefusal? token (parentToken form parent) form = none) :
    (stateAfter (declareStruct token parent form) t).pendingTypes =
        t.pendingTypes.erase token.lexeme ∧
      (stateAfter (declareStruct token parent form) t).pendingParents =
        (t.await token.lexeme (parentToken form parent)).pendingParents.erase token.lexeme ∧
      (stateAfter (declareStruct token parent form) t).contains =
        fun n => decide (n = token.lexeme) || t.contains n := by
  have hne := fun p hp => ((structRefusal?_eq_none_iff.1 hfree).2.2 p hp).2
  have hcontains : (t.place token (parentToken form parent) form).contains =
      fun n => decide (n = token.lexeme) || t.contains n := funext (contains_place hne)
  unfold stateAfter
  rw [run_declareStruct, hfree]
  cases hcycle : (t.place token (parentToken form parent) form).isCyclic token.lexeme with
  | true =>
    simp only [hcycle, if_true]
    refine ⟨?_, ?_, hcontains⟩
    · rw [place_eq hne]
    · rw [place_eq hne]
  | false =>
    have henroll := sameTree_enroll (t.place token (parentToken form parent) form) token.lexeme form
    simp only [hcycle, Bool.false_eq_true, if_false]
    refine ⟨?_, ?_, (funext henroll.contains_eq).trans hcontains⟩
    · show (t.place token (parentToken form parent) form).pendingTypes = _
      rw [place_eq hne]
    · show (t.place token (parentToken form parent) form).pendingParents = _
      rw [place_eq hne]

theorem pendsTypes_declareStruct (htypes : t.pendingTypes.Pends t.contains uses) (token : Token)
    (parent : Option Token) (form : Form) :
    let t' := stateAfter (declareStruct token parent form) t
    t'.pendingTypes.Pends t'.contains fun n => uses n ++
      ((Call.struct token parent form).use? n).toList := by
  intro t'
  refine NameMap.Pends.congr ?_ fun n _ => List.append_nil (uses n)
  cases hfree : t.structRefusal? token (parentToken form parent) form with
  | some refusal =>
    have hsame : t' = t := stateAfter_of_error (run_declareStruct_of_refusal hfree)
    rw [hsame]
    exact htypes
  | none =>
    obtain ⟨hpending, _, hcontains⟩ := pending_declareStruct hfree
    rw [hpending, hcontains]
    exact htypes.erase token.lexeme

/-- A struct waits only if its declaration is accepted. -/
theorem pendsParents_declareStruct (h : t.Sound)
    (hparents : t.pendingParents.Pends t.contains waiting) (token : Token) (parent : Option Token)
    (form : Form) :
    let t' := stateAfter (declareStruct token parent form) t
    t'.pendingParents.Pends t'.contains fun p => waiting p ++
      if succeeds (declareStruct token parent form) t
        then ((Call.struct token parent form).wait? p).toList else [] := by
  intro t'
  cases hfree : t.structRefusal? token (parentToken form parent) form with
  | some refusal =>
    have hrun := run_declareStruct_of_refusal hfree
    have hsame : t' = t := stateAfter_of_error hrun
    have hfails : succeeds (declareStruct token parent form) t = false := by
      rw [succeeds, hrun]
    rw [hsame, hfails]
    exact hparents.congr fun p _ => List.append_nil _
  | none =>
    obtain ⟨_, hpending, hcontains⟩ := pending_declareStruct hfree
    rw [hpending, hcontains]
    refine ((pends_await hparents token.lexeme _).erase token.lexeme).congr fun p hp => ?_
    split
    · rfl
    · next hfails =>
      -- the named parent is registered, since no cycle is closed under the root
      have hnone : (parentToken form parent).filter (·.lexeme = p) = none := by
        rw [Option.filter_eq_none_iff]
        intro q hq hlexeme
        have hnamed : (parentToken form parent).map (·.lexeme) = some p := by
          rw [hq, Option.map_some, of_decide_eq_true hlexeme]
        have hstructural : form = .structural := form_of_parent (fun hform => hform ▸ rfl) hnamed
        subst hstructural
        have hunknown : t.contains p = false := (Bool.or_eq_false_iff.1 hp).2
        exact hfails (succeeds_declareStruct_iff.2
          ⟨hfree, isCyclic_place_of_awaited h hfree hnamed hunknown⟩)
      rw [hnone]
      rfl

end Struct

/-! ## All calls -/

theorem KeepsItems.call (h : t.Sound) (call : Call) (hcall : call.declaresMember = true) :
    t.KeepsItems (stateAfter call.run t) := by
  cases call with
  | struct | close => cases hcall
  | method token kind returnType => exact declareMethod h token kind returnType
  | param token type => exact declareParam h token type
  | var token type isPrivate => exact declareVar h token type isPrivate

/-- One call notes the type that it uses, whatever its outcome. -/
theorem pendsTypes_call (h : t.Sound) (htypes : t.pendingTypes.Pends t.contains uses)
    (call : Call) :
    (stateAfter call.run t).pendingTypes.Pends (stateAfter call.run t).contains
      fun n => uses n ++ (call.use? n).toList := by
  have hkeeps := fun hcall => (KeepsItems.call h call hcall).tree.contains_eq
  cases call with
  | struct token parent form => exact pendsTypes_declareStruct htypes token parent form
  | close => exact htypes.congr fun n _ => List.append_nil _
  | method | param | var =>
    rw [pendingTypes_call t rfl, funext (hkeeps rfl)]
    exact pends_noteOptional htypes _

/-- One call notes the struct that waits for its parent, if it is accepted. -/
theorem pendsParents_call (h : t.Sound) (hparents : t.pendingParents.Pends t.contains waiting)
    (call : Call) :
    (stateAfter call.run t).pendingParents.Pends (stateAfter call.run t).contains
      fun p => waiting p ++ if succeeds call.run t then (call.wait? p).toList else [] := by
  have hkeeps := fun hcall => (KeepsItems.call h call hcall).tree
  cases call with
  | struct token parent form => exact pendsParents_declareStruct h hparents token parent form
  | close => exact hparents.congr fun p _ => List.append_nil _
  | method | param | var =>
    rw [(hkeeps rfl).pending, funext (hkeeps rfl).contains_eq]
    refine hparents.congr fun p _ => ?_
    rw [Call.wait?, Option.toList_none, ite_self, List.append_nil]

theorem pendsTypes_after (h : t.Sound) (htypes : t.pendingTypes.Pends t.contains uses)
    (calls : List Call) :
    (t.after calls).pendingTypes.Pends (t.after calls).contains
      fun n => uses n ++ calls.filterMap (·.use? n) := by
  induction calls generalizing t uses with
  | nil => exact htypes.congr fun n _ => List.append_nil _
  | cons call calls ih =>
    refine (ih (h.reaches (call.moves t)) (pendsTypes_call h htypes call)).congr fun n _ => ?_
    rw [List.append_assoc, List.filterMap_cons]
    cases call.use? n <;> rfl

theorem pendsParents_after (h : t.Sound) (hparents : t.pendingParents.Pends t.contains waiting)
    (calls : List Call) :
    (t.after calls).pendingParents.Pends (t.after calls).contains
      fun p => waiting p ++ (accepted t calls).filterMap (·.wait? p) := by
  induction calls generalizing t waiting with
  | nil => exact hparents.congr fun p _ => List.append_nil _
  | cons call calls ih =>
    refine (ih (h.reaches (call.moves t)) (pendsParents_call h hparents call)).congr fun p _ => ?_
    rw [List.append_assoc, accepted, List.filterMap_append]
    congr 2
    split
    · rw [List.filterMap_cons]
      cases call.wait? p <;> rfl
    · rfl

/-- Both maps can be read off the calls: they list the notes for the names that are not registered,
in the order of the calls. -/
theorem pends_declared (calls : List Call) :
    (declared calls).pendingTypes.Pends (declared calls).contains
        (fun n => calls.filterMap (·.use? n)) ∧
      (declared calls).pendingParents.Pends (declared calls).contains
        fun p => (accepted new calls).filterMap (·.wait? p) := by
  have hempty {α : Type} : (NameMap.empty : NameMap (List α)).Pends new.contains fun _ => [] := by
    intro n
    rw [if_pos (.inr rfl)]
    rfl
  exact ⟨pendsTypes_after sound_new hempty calls, pendsParents_after sound_new hempty calls⟩

/-! ## Structs that wait -/

section Waiting

variable {c p : String}

theorem structItems_eq_flatMap (n : String) (t : SymbolTable) (calls : List Call) :
    structItems n t calls = (accepted t calls).flatMap (Call.itemParents n) := by
  induction calls generalizing t with
  | nil => rfl
  | cons call calls ih =>
    rw [structItems, accepted, List.flatMap_append, ih]
    split <;> simp

/-- A struct is noted for a parent as often as its struct items name the parent. -/
theorem count_wait? (calls : List Call) :
    ((calls.filterMap (·.wait? p)).map (·.child)).count c =
      (calls.flatMap (Call.itemParents c)).countP fun parent => parent.any (·.lexeme = p) := by
  have hcall (call : Call) : ((call.wait? p).toList.map (·.child)).count c =
      (call.itemParents c).countP fun parent => parent.any (·.lexeme = p) := by
    cases call with
    | method | param | var | close => rfl
    | struct token parent form =>
      cases form with
      | implementation => rfl
      | structural =>
        by_cases hc : token.lexeme = c <;> cases parent with
        | none => simp [Call.wait?, Call.itemParents, parentToken, hc]
        | some q =>
          by_cases hq : q.lexeme = p <;>
            simp [Call.wait?, Call.itemParents, parentToken, Option.filter, hc, hq]
  induction calls with
  | nil => rfl
  | cons call calls ih =>
    rw [List.flatMap_cons, List.countP_append, ← ih, ← hcall, ← List.count_append,
      ← List.map_append, List.filterMap_cons]
    cases call.wait? p <;> rfl

theorem count_orphans (calls : List Call) (hp : (declared calls).contains p = false) :
    ((declared calls).orphans p).count c =
      (structItems c new calls).countP fun parent => parent.any (·.lexeme = p) := by
  have hlisted : (declared calls).waitingFor p = (accepted new calls).filterMap (·.wait? p) :=
    (pends_declared calls).2.getD_get? hp
  unfold orphans
  rw [hlisted, count_wait?, structItems_eq_flatMap]

/-- A struct waits for the parent that its accepted struct item names, until the parent is
registered. -/
theorem mem_orphans_declared_iff (calls : List Call) :
    c ∈ (declared calls).orphans p ↔ (declared calls).contains p = false ∧
      ∃ q, structItems c new calls = [some q] ∧ q.lexeme = p := by
  have h := (sound_declared calls).hierarchy
  refine ⟨fun hmem => ?_, fun hnamed => ?_⟩
  · have hp : (declared calls).contains p = false := by
      by_contra hp
      rw [h.orphans_of_contains (Bool.of_not_eq_false hp)] at hmem
      cases hmem
    have hcount := List.count_pos_iff.2 hmem
    rw [count_orphans calls hp] at hcount
    obtain ⟨parent, hparent, hany⟩ := List.countP_pos_iff.1 hcount
    obtain ⟨q, rfl, hq⟩ := (Option.any_eq_true _ _).1 hany
    have hrecorded := recorded_declared calls (h.orphan p c hmem).2
    generalize structItems c new calls = items at hrecorded hparent ⊢
    cases hrecorded with
    | absent => cases hparent
    | accepted =>
      obtain rfl := List.mem_singleton.1 hparent
      exact ⟨hp, q, rfl, of_decide_eq_true hq⟩
  · obtain ⟨hp, q, hitems, hq⟩ := hnamed
    rw [← List.count_pos_iff, count_orphans calls hp, hitems]
    simp [hq]

end Waiting

/-! ## The pending maps -/

/-- What is pending in a table is what the calls refer to and have not declared. -/
structure PendingExact (calls : List Call) (t : SymbolTable) : Prop where
  parents : ∀ p ws, t.pendingParents.get? p = some ws → t.contains p = false ∧ ws ≠ []
  types : ∀ n tokens, t.pendingTypes.get? n = some tokens → t.contains n = false ∧ tokens ≠ []
  /-- A struct waits for a parent if its accepted struct item names the parent. -/
  waits_iff : ∀ c p, c ∈ t.orphans p ↔ t.contains p = false ∧
    ∃ q, structItems c new calls = [some q] ∧ q.lexeme = p
  /-- It waits under the root and is noted once. -/
  waits_once : ∀ c p, c ∈ t.orphans p →
    (t.orphans p).count c = 1 ∧ t.parent? c = some Builtin.root
  /-- A type is noted if a call, accepted or not, has used it. -/
  used_iff : ∀ n, t.pendingTypes.contains n = true ↔ t.contains n = false ∧
    ∃ call ∈ calls, ∃ token, call.typeToken? = some token ∧ Ty.ofName token.lexeme = .struct n
  /-- The first token is that of the first call that has used the type. -/
  first_use : ∀ n token tokens, t.pendingTypes.get? n = some (token :: tokens) →
    ∃ before call after, calls = before ++ call :: after ∧
      call.typeToken? = some token ∧ Ty.ofName token.lexeme = .struct n ∧
      ∀ earlier ∈ before, ∀ other, earlier.typeToken? = some other →
        Ty.ofName other.lexeme ≠ .struct n

/-- After any calls, the refused ones included, the two maps hold exactly what is pending. -/
theorem pendingExact_declared (calls : List Call) : PendingExact calls (declared calls) := by
  obtain ⟨htypes, hparents⟩ := pends_declared calls
  have huse (n : String) (call : Call) : call.use? n = none ↔
      ∀ token, call.typeToken? = some token → Ty.ofName token.lexeme ≠ .struct n := by
    simp only [Option.eq_none_iff_forall_ne_some, ne_eq, Call.use?_eq_some_iff, not_and]
  refine ⟨fun p ws hws => ?_, fun n tokens htokens => ?_, fun c p => mem_orphans_declared_iff calls,
    fun c p hc => ?_, fun n => ?_, fun n token tokens htokens => ?_⟩
  · obtain ⟨hp, _, hne⟩ := hparents.get?_eq_some_iff.1 hws
    exact ⟨hp, hne⟩
  · obtain ⟨hn, _, hne⟩ := htypes.get?_eq_some_iff.1 htokens
    exact ⟨hn, hne⟩
  · obtain ⟨hp, q, hitems, hq⟩ := (mem_orphans_declared_iff calls).1 hc
    refine ⟨?_, ((sound_declared calls).hierarchy.orphan p c hc).1⟩
    rw [count_orphans calls hp, hitems]
    simp [hq]
  · have hnone : calls.filterMap (·.use? n) = [] ↔ ∀ call ∈ calls, call.use? n = none :=
      List.filterMap_eq_nil_iff
    rw [htypes.contains_iff, ne_eq, hnone]
    simp only [huse]
    push Not
    rfl
  · obtain ⟨_, hfirst, _⟩ := htypes.get?_eq_some_iff.1 htokens
    have hhead : calls.findSome? (·.use? n) = some token := by
      rw [← List.head?_filterMap, hfirst]
      rfl
    obtain ⟨before, call, after, hcalls, hcall, hbefore⟩ := List.findSome?_eq_some_iff.1 hhead
    obtain ⟨htoken, hty⟩ := Call.use?_eq_some_iff.1 hcall
    exact ⟨before, call, after, hcalls, htoken, hty,
      fun earlier hearlier => (huse n earlier).1 (hbefore earlier hearlier)⟩

/-- A struct `A` whose parent `B` is not registered.  The type `C` is used twice, first by a call
that is refused, since nothing is open. -/
def waitingCalls : List Call :=
  let name (s : String) (line : UInt32) : Token := ⟨.structId, s, line, 8⟩
  let method (line : UInt32) : Token := ⟨.objectId, "f", line, 5⟩
  [.struct (name "A" 1) (some (name "B" 1)) .structural, .close,
    .method (method 2) .onInstance (some (name "C" 2)), .struct (name "A" 3) none .implementation,
    .method (method 4) .onInstance (some (name "C" 4))]

theorem pendingExact_waitingCalls :
    structItems "A" new waitingCalls = [some ⟨.structId, "B", 1, 8⟩] ∧
      (declared waitingCalls).contains "B" = false ∧
      ((declared waitingCalls).orphans "B").count "A" = 1 ∧
      (declared waitingCalls).parent? "A" = some Builtin.root ∧
      (declared waitingCalls).pendingTypes.get? "C" =
        some [⟨.structId, "C", 2, 8⟩, ⟨.structId, "C", 4, 8⟩] ∧
      ∃ before call after, waitingCalls = before ++ call :: after ∧
        call.typeToken? = some ⟨.structId, "C", 2, 8⟩ := by
  have h := pendingExact_declared waitingCalls
  have hitems : structItems "A" new waitingCalls = [some ⟨.structId, "B", 1, 8⟩] := by
    decide +kernel
  have hunknown : (declared waitingCalls).contains "B" = false := by decide +kernel
  have htypes : (declared waitingCalls).pendingTypes.get? "C" =
      some [⟨.structId, "C", 2, 8⟩, ⟨.structId, "C", 4, 8⟩] := by decide +kernel
  have hwaits := (h.waits_iff "A" "B").2 ⟨hunknown, _, hitems, rfl⟩
  obtain ⟨honce, hparent⟩ := h.waits_once "A" "B" hwaits
  obtain ⟨before, call, after, hcalls, htoken, _⟩ := h.first_use "C" _ _ htypes
  exact ⟨hitems, hunknown, honce, hparent, htypes, before, call, after, hcalls, htoken⟩

end SymbolTable

end StructLang
