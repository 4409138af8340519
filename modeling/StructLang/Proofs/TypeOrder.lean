import StructLang.Proofs.Operations
import StructLang.Proofs.TypingRules

/-!
# The order of types

`ordersTypes_made`: as long as no call has been refused for a cycle, subtyping and assignability are
partial orders, whatever else has been done to the table: calls that failed, and completions that
succeeded or stopped on the way.

* `Planted` is what carries this: the structs are a tree under the root, and those that wait are
  among them.  Only the declaration of a struct changes the tree; every other action moves along
  `SameTree`.
* `Climbs` is the search for an ancestor without a bound on its length.  In a planted tree it ends,
  with the answer of `isSubtype` (`climbs_isSubtype`).
-/

namespace StructLang.SymbolTable

variable {t t' : SymbolTable} {a c n : String} {b : Bool}

/-! ## Actions that keep the tree -/

namespace SameTree

theorem of_structs_eq (hstructs : t'.structs = t.structs)
    (hpending : t'.pendingParents = t.pendingParents) : t.SameTree t' :=
  ⟨fun n => by rw [struct?, hstructs, struct?], hpending⟩

theorem insert {s s' : Struct} (hs : t.struct? n = some s) (hparent : s'.parent = s.parent)
    (hchildren : s'.children = s.children) :
    t.SameTree { t with structs := t.structs.insert n s' } := by
  refine ⟨fun m => ?_, rfl⟩
  rw [struct?, NameMap.get?_insert]
  split
  · next hm => rw [hm, hs, Option.map_some, Option.map_some, hparent, hchildren]
  · rfl

theorem modify {f : Struct → Struct} (n : String)
    (hf : ∀ s, (f s).parent = s.parent ∧ (f s).children = s.children) :
    t.SameTree { t with structs := t.structs.modify n f } := by
  refine ⟨fun m => ?_, rfl⟩
  rw [struct?, NameMap.get?_modify]
  split
  · next hm =>
    rw [hm, struct?]
    cases t.structs.get? n with
    | none => rfl
    | some s => rw [Option.map_some, Option.map_some, Option.map_some, (hf s).1, (hf s).2]
  · rfl

end SameTree

theorem moves_resolveType (token : Token) : Moves SameTree (resolveType token) := by
  intro t
  rw [stateAfter, run_resolveType]
  exact .single (.of_structs_eq (structs_noteType t token) (pendingParents_noteType t token))

theorem moves_modifyStruct (name : String) {f : Struct → Except SemanticError Struct}
    (hf : ∀ s s', f s = .ok s' → s.MembersChange s') : Moves SameTree (modifyStruct name f) := by
  intro t
  rw [stateAfter, run_modifyStruct]
  cases hs : t.struct? name with
  | none => exact .refl
  | some s =>
    rw [Option.map_some]
    cases hresult : f s with
    | error e => exact .refl
    | ok s' =>
      obtain ⟨_, _, _, _, _, rfl⟩ := hf s s' hresult
      exact .single (.insert hs rfl rfl)

theorem sameTree_setOpenMethod (t : SymbolTable) (m : Method) : t.SameTree (t.setOpenMethod m) := by
  unfold setOpenMethod
  split
  · exact .of_structs_eq rfl rfl
  · exact .of_structs_eq rfl rfl
  · exact .of_structs_eq rfl rfl
  · next owner _ => exact .modify owner fun _ => ⟨rfl, rfl⟩
  · next owner name _ => exact .modify owner fun _ => ⟨rfl, rfl⟩

theorem moves_modifyOpenMethod (token : Token) (f : Method → Except SemanticError Method) :
    Moves SameTree (modifyOpenMethod token f) := by
  intro t
  rw [stateAfter, run_modifyOpenMethod]
  cases t.openMethod?.map f with
  | none => exact .refl
  | some result =>
    cases result with
    | error e => exact .refl
    | ok m => exact .single (sameTree_setOpenMethod t m)

theorem moves_declareTyped (token : Token) (kind : MethodKind) (ty : Ty) :
    Moves SameTree (declareTyped token kind ty) := by
  apply Moves.bind (fun _ => .refl)
  intro t
  cases t.scope.struct? with
  | none => exact fun _ => .refl
  | some owner =>
    apply Moves.bind (moves_modifyStruct owner fun _ _ => Struct.membersChange_addMethod)
    exact fun _ _ => .single (.of_structs_eq rfl rfl)

/-- Only the declaration of a struct changes the tree. -/
theorem moves_sameTree_call {call : Call}
    (h : ∀ token parent form, call ≠ .struct token parent form) : Moves SameTree call.run := by
  cases call with
  | struct token parent form => exact absurd rfl (h token parent form)
  | method token kind returnType =>
    intro t
    rw [stateAfter]
    by_cases hkind : kind = .start
    · subst hkind
      rw [Call.run, run_declareMethod_start]
      cases t.start with
      | none => exact .single (.of_structs_eq rfl rfl)
      | some m => exact .refl
    · rw [Call.run, run_declareMethod token hkind]
      refine .trans ?_ (moves_declareTyped token kind _ (t.noteOptional _))
      cases returnToken kind returnType with
      | none => exact .refl
      | some type =>
        exact .single (.of_structs_eq (structs_noteType t type) (pendingParents_noteType t type))
  | param token type =>
    exact Moves.bind (moves_resolveType type) fun ty => moves_modifyOpenMethod token _
  | var token type isPrivate =>
    apply Moves.bind (moves_resolveType type)
    intro ty
    apply Moves.bind (fun _ => .refl)
    intro t
    cases t.scope with
    | closed => exact fun _ => .refl
    | start | constructor owner | method owner name => exact moves_modifyOpenMethod token _
    | struct owner =>
      apply Moves.bind (fun _ => .refl)
      intro t
      dsimp only
      split
      · exact moves_modifyStruct owner fun _ _ => Struct.membersChange_addAttribute
      · exact fun _ => .refl
  | close => exact fun _ => .single (.of_structs_eq rfl rfl)

/-- A merge that stops half-way keeps the tree too. -/
theorem moves_sameTree_mergeChild (parent : Struct) (child : String) :
    Moves SameTree (mergeChild parent child) := by
  intro t
  rcases stateAfter_mergeChild t parent child with heq | ⟨s, s', hs, _, hframe, heq⟩
  · rw [heq]
  · have hparent : s'.frame.parent = s.frame.parent := congrArg Struct.parent hframe
    have hchildren : s'.frame.children = s.frame.children := congrArg Struct.children hframe
    rw [heq]
    exact .single (.insert hs hparent hchildren)

theorem moves_sameTree_consolidate : Moves SameTree consolidate :=
  moves_consolidate moves_sameTree_mergeChild fun _ => .of_structs_eq rfl rfl

/-! ## Trees under the root -/

/-- The structs are a tree under the root, with those that wait for a parent among them. -/
structure Planted (t : SymbolTable) : Prop where
  root : t.parent? Builtin.root = none
  orphan : ∀ p c, c ∈ t.orphans p → t.contains c = true ∧ c ≠ Builtin.root
  rooted : ∀ n, t.contains n = true → t.Rooted n

theorem planted_new : new.Planted where
  root := registry_new.parent?_root
  orphan p c hc := by
    rw [orphans_new] at hc
    cases hc
  rooted n hn := by
    by_cases hroot : n = Builtin.root
    · exact hroot ▸ Relation.ReflTransGen.refl
    · exact .single (extends_new.2 ⟨rfl, hroot, hn⟩)

theorem SameTree.planted (hsame : t.SameTree t') (h : t.Planted) : t'.Planted where
  root := (hsame.parent?_eq _).trans h.root
  orphan p c hc := by
    rw [hsame.orphans_eq] at hc
    rw [hsame.contains_eq]
    exact h.orphan p c hc
  rooted n hn := by
    rw [hsame.contains_eq] at hn
    rw [Rooted, Below, hsame.extends_eq]
    exact h.rooted n hn

theorem Planted.moves (h : t.Planted) {x : Declaring Unit} (hx : Moves SameTree x) :
    (stateAfter x t).Planted := by
  have hkeeps : Moves (fun t t' => t.Planted → t'.Planted) x := fun t =>
    Relation.ReflTransGen.mono (fun _ _ => SameTree.planted) _ _ (hx t)
  exact hkeeps.keeps h

/-- Every struct but the root has a parent, which is registered or the root. -/
theorem Planted.exists_parent (h : t.Planted) (hn : t.contains n = true) (hne : n ≠ Builtin.root) :
    ∃ p, t.Extends n p ∧ (p = Builtin.root ∨ t.contains p = true) := by
  rcases Relation.ReflTransGen.cases_head_iff.1 (h.rooted n hn) with heq | ⟨p, hp, hrooted⟩
  · exact absurd heq hne
  · refine ⟨p, hp, ?_⟩
    rcases Relation.ReflTransGen.cases_head_iff.1 hrooted with heq | ⟨q, hq, _⟩
    · exact .inl heq
    · exact .inr hq.contains

/-- A struct that takes a place without a cycle, with the structs that wait for it, leaves a tree. -/
theorem Planted.place (h : t.Planted) {token : Token} {parent : Option Token} {form : Form}
    (hfree : t.structRefusal? token parent form = none)
    (hstraight : (t.place token parent form).isCyclic token.lexeme = false) :
    (t.place token parent form).Planted := by
  obtain ⟨hreserved, _, hparents⟩ := structRefusal?_eq_none_iff.1 hfree
  have hne := fun p hp => (hparents p hp).2
  have hname : token.lexeme ≠ Builtin.root := by
    intro heq
    rw [heq] at hreserved
    cases hreserved
  have horphans : ∀ c ∈ t.orphans token.lexeme, t.contains c = true := fun c hc =>
    (h.orphan token.lexeme c hc).1
  have hroot : (t.place token parent form).parent? Builtin.root = none := by
    have hsettled : Builtin.root ∉ t.orphans token.lexeme := fun hmem =>
      (h.orphan token.lexeme _ hmem).2 rfl
    rw [parent?_place hne horphans, if_neg hsettled, if_neg fun hown => hname hown.1.symm]
    exact h.root
  have hcontains (n : String) : (t.place token parent form).contains n =
      (decide (n = token.lexeme) || t.contains n) := contains_place hne n
  have hrooted : (t.place token parent form).Rooted token.lexeme := by
    by_contra hloop
    refine Bool.eq_false_iff.1 hstraight
      ((isCyclic_iff_not_rooted hroot (fun c hc hc' => ?_) ?_ hname).2 hloop)
    · refine exists_parent_place hne horphans ?_ ?_ (fun p hold => ?_)
        (fun _ => h.exists_parent) hc hc'
      · exact .inr (by simp [hcontains])
      · exact (home_open fun p hp => (hparents p hp).1).imp_right fun hopen => by
          simp [hcontains, hopen.2]
      · exact hold.imp_right fun hold => by simp [hcontains, hold]
    · simp [hcontains]
  refine ⟨hroot, fun p c hc => ?_, fun n hn => rooted_place horphans hne h.rooted hrooted hn⟩
  · rw [contains_place hne, Bool.or_eq_true, decide_eq_true_iff]
    obtain ⟨_, hold | ⟨rfl, _, _⟩⟩ := (mem_orphans_place hne).1 hc
    · obtain ⟨hcontains, hroot⟩ := h.orphan p c hold
      exact ⟨.inr hcontains, hroot⟩
    · exact ⟨.inl rfl, hname⟩

/-! ## Operations -/

/-- Whether an operation is a call that is refused for a cycle. -/
def closesCycle (t : SymbolTable) : Operation → Bool
  | .call call =>
    match call.run.run t with
    | .error ⟨.cyclicInheritance _, _⟩ _ => true
    | _ => false
  | .consolidate | .mark _ => false

/-- Whether none of the operations, made one after the other, is refused for a cycle. -/
def closesNoCycle : SymbolTable → List Operation → Bool
  | _, [] => true
  | t, operation :: operations =>
    !t.closesCycle operation && (t.perform operation).closesNoCycle operations

theorem Planted.declareStruct (h : t.Planted) (token : Token) (parent : Option Token) (form : Form)
    (hcycle : t.closesCycle (.call (.struct token parent form)) = false) :
    (stateAfter (declareStruct token parent form) t).Planted := by
  rw [closesCycle, Call.run, run_declareStruct] at hcycle
  rw [stateAfter, run_declareStruct]
  cases hfree : t.structRefusal? token (parentToken form parent) form with
  | some refusal => exact h
  | none =>
    rw [hfree] at hcycle
    cases hloop : (t.place token (parentToken form parent) form).isCyclic token.lexeme with
    | true => simp [hloop] at hcycle
    | false =>
      simp only [hloop, Bool.false_eq_true, if_false]
      exact (sameTree_enroll _ _ _).planted (h.place hfree hloop)

/-- One operation leaves a tree, unless it is refused for a cycle. -/
theorem Planted.perform (h : t.Planted) {operation : Operation}
    (hcycle : t.closesCycle operation = false) : (t.perform operation).Planted := by
  cases operation with
  | call call =>
    by_cases hstruct : ∃ token parent form, call = .struct token parent form
    · obtain ⟨token, parent, form, rfl⟩ := hstruct
      exact h.declareStruct token parent form hcycle
    · push Not at hstruct
      exact h.moves (moves_sameTree_call hstruct)
  | consolidate => exact h.moves moves_sameTree_consolidate
  | mark name =>
    have hsame : t.SameTree (t.markInstantiated name) := .modify name fun _ => ⟨rfl, rfl⟩
    exact hsame.planted h

/-- Operations leave a tree, if none of them is refused for a cycle. -/
theorem Planted.foldl_perform (h : t.Planted) {operations : List Operation}
    (hcycle : t.closesNoCycle operations = true) :
    (operations.foldl SymbolTable.perform t).Planted := by
  induction operations generalizing t with
  | nil => exact h
  | cons operation operations ih =>
    rw [closesNoCycle, Bool.and_eq_true, Bool.not_eq_true'] at hcycle
    exact ih (h.perform hcycle.1) hcycle.2

/-! ## Subtypes -/

/-- The search for an ancestor from a name upwards, step by step, ends with an answer. -/
inductive Climbs (t : SymbolTable) (ancestor : String) : String → Bool → Prop where
  | found : t.Climbs ancestor ancestor true
  | missed {name : String} (hne : name ≠ ancestor) (htop : t.parent? name = none) :
      t.Climbs ancestor name false
  | step {name parent : String} {answer : Bool} (hne : name ≠ ancestor)
      (hparent : t.Extends name parent) (hrest : t.Climbs ancestor parent answer) :
      t.Climbs ancestor name answer

/-- A search that ends has the answer of the bounded one, on every table. -/
theorem Climbs.isSubtype_eq (h : t.Climbs a c b) : t.isSubtype c a = b := by
  induction h with
  | found => exact isSubtype_iff_below.2 .refl
  | missed hne htop =>
    rw [Bool.eq_false_iff, Ne, isSubtype_iff_below]
    intro hbelow
    obtain rfl | ⟨p, hp, _⟩ := hbelow.cases_head
    · exact hne rfl
    · rw [Extends, htop] at hp
      cases hp
  | step hne hparent _ ih =>
    rw [← ih, Bool.eq_iff_iff, isSubtype_iff_below, isSubtype_iff_below, ← transGen_iff hparent]
    rw [Below, Relation.reflTransGen_iff_eq_or_transGen]
    exact or_iff_right hne.symm

theorem exists_climbs_of_rooted (hroot : t.parent? Builtin.root = none) (a : String)
    (hc : t.Rooted c) : ∃ b, t.Climbs a c b := by
  induction hc using Relation.ReflTransGen.head_induction_on with
  | refl =>
    by_cases hfound : Builtin.root = a
    · exact ⟨true, hfound ▸ .found⟩
    · exact ⟨false, .missed hfound hroot⟩
  | @head name parent hstep _ ih =>
    obtain ⟨answer, hanswer⟩ := ih
    by_cases hfound : name = a
    · exact ⟨true, hfound ▸ .found⟩
    · exact ⟨answer, .step hfound hstep hanswer⟩

namespace Planted

/-- The search ends for every name, registered or not. -/
theorem climbs_isSubtype (h : t.Planted) (c a : String) : t.Climbs a c (t.isSubtype c a) := by
  have hends : ∃ b, t.Climbs a c b := by
    cases hc : t.contains c with
    | true => exact exists_climbs_of_rooted h.root a (h.rooted c hc)
    | false =>
      have htop := parent?_of_struct?_eq_none (contains_eq_false_iff_struct?.1 hc)
      by_cases hfound : c = a
      · exact ⟨true, hfound ▸ .found⟩
      · exact ⟨false, .missed hfound htop⟩
  obtain ⟨b, hclimbs⟩ := hends
  rwa [hclimbs.isSubtype_eq]

/-- No struct is a proper ancestor of itself, so two structs are not ancestors of each other. -/
theorem below_antisymm (h : t.Planted) (hca : t.Below c a) (hac : t.Below a c) : c = a := by
  obtain rfl | ⟨p, hstep, hrest⟩ := hca.cases_head
  · rfl
  · have hcycle : Relation.TransGen t.Extends c c := .head' hstep (hrest.trans hac)
    exact absurd hcycle (not_transGen_self h.root (h.rooted c hstep.contains))

end Planted

/-! ## Assignability -/

/-- A value that may be stored where a type is expected may be stored where anything is expected
that takes this type. -/
theorem Assignable.trans {u v w : Ty} (huv : t.Assignable u v) (hvw : t.Assignable v w) :
    t.Assignable u w := by
  cases huv with
  | same => exact hvw
  | literal p =>
    -- nothing but itself takes a primitive type
    cases hvw with
    | same => exact .literal p
  | nilStruct name =>
    cases hvw with
    | same => exact .nilStruct name
    | upcast _ => exact .nilStruct _
  | nilArray element =>
    cases hvw with
    | same => exact .nilArray element
  | upcast hbelow =>
    cases hvw with
    | same => exact .upcast hbelow
    | upcast habove => exact .upcast (hbelow.trans habove)

theorem Planted.assignable_antisymm (h : t.Planted) {u v : Ty} (huv : t.Assignable u v)
    (hvu : t.Assignable v u) : u = v := by
  cases huv with
  | same => rfl
  | literal p => cases hvu
  | nilStruct name => cases hvu
  | nilArray element => cases hvu
  | upcast hbelow =>
    cases hvu with
    | same => rfl
    | upcast habove => rw [h.below_antisymm hbelow habove]

/-- Subtyping is the order of a tree under the root, and assignability an order of all types. -/
structure OrdersTypes (t : SymbolTable) : Prop where
  /-- The search for an ancestor ends, with the answer of the test for subtypes. -/
  climbs : ∀ child ancestor, t.Climbs ancestor child (t.isSubtype child ancestor)
  isSubtype_iff : ∀ child ancestor, t.isSubtype child ancestor = true ↔
    ancestor = child ∨ Relation.TransGen t.Extends child ancestor
  isSubtype_root : ∀ name, t.contains name = true → t.isSubtype name Builtin.root = true
  refl : ∀ ty, t.isAssignable ty ty = true
  trans : ∀ u v w, t.isAssignable u v = true → t.isAssignable v w = true →
    t.isAssignable u w = true
  antisymm : ∀ u v, t.isAssignable u v = true → t.isAssignable v u = true → u = v

/-- After operations none of which has been refused for a cycle, subtyping and assignability are
partial orders that the tree gives. -/
theorem ordersTypes_made (operations : List Operation)
    (hcycle : new.closesNoCycle operations = true) : (made operations).OrdersTypes := by
  have h : (made operations).Planted := planted_new.foldl_perform hcycle
  refine ⟨h.climbs_isSubtype, fun child ancestor => ?_, fun name hname => ?_, fun ty => ?_,
    fun u v w huv hvw => ?_, fun u v huv hvu => ?_⟩
  · rw [isSubtype_iff_below, Below, Relation.reflTransGen_iff_eq_or_transGen]
  · exact isSubtype_iff_below.2 (h.rooted name hname)
  · exact isAssignable_iff.2 (.same ty)
  · rw [isAssignable_iff] at huv hvw ⊢
    exact huv.trans hvw
  · rw [isAssignable_iff] at huv hvu
    exact h.assignable_antisymm huv hvu

/-- A struct that waits for its parent, an impl block before its struct item, a struct item that is
repeated, and a completion that fails. -/
def forwardOperations : List Operation :=
  let struct (name : String) := Token.builtin .structId name
  [.call (.struct (struct "A") (some (struct "B")) .structural),
    .call (.struct (struct "B") none .implementation), .consolidate,
    .call (.struct (struct "B") none .structural), .call (.struct (struct "A") none .structural),
    .mark "A"]

theorem ordersTypes_of_forwardOperations :
    new.closesNoCycle forwardOperations = true ∧
      (made forwardOperations).isSubtype "A" "B" = true ∧ (made forwardOperations).OrdersTypes := by
  have hcycle : new.closesNoCycle forwardOperations = true := by decide +kernel
  exact ⟨hcycle, by decide +kernel, ordersTypes_made forwardOperations hcycle⟩

end StructLang.SymbolTable
