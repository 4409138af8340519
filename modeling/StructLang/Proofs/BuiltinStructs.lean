import StructLang.Proofs.Creation
import StructLang.Proofs.ItemOrder
import StructLang.Proofs.Operations

/-!
# Built-in structs stay what they are

A table is used by requests in any order: calls that declare something, completions, and checks of
programs.  Each of them may fail and may be followed by others.  No request changes a built-in struct,
apart from the children of the root and the mark that the root has been created
(`keepsBuiltins_served`).

The invariant is `Guarded`.  A declaration writes to the struct that it names, to the struct that is
open, to the structs that wait and to the old and the new parent of a struct that moves.  None of them
is a built-in struct, except that the root may be a parent.  A completion skips the built-in structs,
which are complete from the start, and a check marks what a body creates, which is no built-in struct
but the root.
-/

namespace StructLang

/-- What may be asked of a table.  Unlike an `Operation`, a check marks no struct but those that
accepted bodies create. -/
inductive Request where
  | call (call : Call)
  | consolidate
  /-- Checks the bodies of a program. -/
  | check (p : Program)

namespace SymbolTable

/-- The table after a request, successful or not.  A check marks the structs that are created once
all bodies are accepted. -/
def serve (t : SymbolTable) : Request → SymbolTable
  | .call call => stateAfter call.run t
  | .consolidate => stateAfter consolidate t
  | .check p =>
    match (p.bodies.mapM (Body.check t)).run .empty with
    | .ok (_, created) => t.markCreated created
    | .error _ => t

/-- The table that requests make. -/
def served (requests : List Request) : SymbolTable := requests.foldl serve new

end SymbolTable

/-! ## One struct -/

/-- A name that a struct may have as its parent. -/
def Builtin.Open (n : String) : Prop := n = root ∨ structs.contains n = false

/-- What may stand under a name: a built-in struct as it was, or a struct that a program declares. -/
structure Struct.Guarded (n : String) (s : Struct) : Prop where
  root : n = Builtin.root →
    ∃ children instantiated, s = { Builtin.rootStruct with children, instantiated }
  builtin : ∀ b, n ≠ Builtin.root → Builtin.structs.get? n = some b → s = b
  user : Builtin.structs.contains n = false →
    s.builtin = false ∧ ∀ p, s.parent = some p → Builtin.Open p

namespace Struct.Guarded

variable {n : String} {s : Struct}

theorem of_user (hn : Builtin.structs.contains n = false) (hbuiltin : s.builtin = false)
    (hparent : ∀ p, s.parent = some p → Builtin.Open p) : s.Guarded n where
  root hroot := by
    rw [hroot] at hn
    cases hn
  builtin b _ hb := by
    rw [NameMap.contains, hb] at hn
    cases hn
  user _ := ⟨hbuiltin, hparent⟩

/-- The parent of a declared struct may change to one that is open. -/
theorem setParent (h : s.Guarded n) (hn : Builtin.structs.contains n = false) {p : String}
    (hp : Builtin.Open p) (children : NameSet) :
    { s with parent := some p, children }.Guarded n := by
  refine .of_user hn (h.user hn).1 ?_
  rintro q ⟨⟩
  exact hp

/-- The children of a struct that is open may change, and the mark that it has been created. -/
theorem setChildren (h : s.Guarded n) (hn : Builtin.Open n) (children : NameSet)
    (instantiated : Bool) : { s with children, instantiated }.Guarded n := by
  rcases hn with rfl | hn
  · obtain ⟨_, _, rfl⟩ := h.root rfl
    exact ⟨fun _ => ⟨children, instantiated, rfl⟩, fun _ hne => absurd rfl hne,
      fun hn => by cases hn⟩
  · exact .of_user hn (h.user hn).1 (h.user hn).2

/-- A struct that is not complete is not a built-in one. -/
theorem user_of_consolidated (h : s.Guarded n) (hs : s.consolidated = false) :
    Builtin.structs.contains n = false := by
  by_contra hn
  obtain ⟨b, hb⟩ := NameMap.contains_iff.1 (Bool.of_not_eq_false hn)
  by_cases hroot : n = Builtin.root
  · obtain ⟨_, _, rfl⟩ := h.root hroot
    cases hs
  · rw [h.builtin b hroot hb, (Builtin.underRoot_of_get? hb hroot).2.2.1] at hs
    cases hs

theorem builtin_eq (h : s.Guarded n) : s.builtin = Builtin.structs.contains n := by
  cases hn : Builtin.structs.contains n with
  | false => exact (h.user hn).1
  | true =>
    by_cases hroot : n = Builtin.root
    · obtain ⟨_, _, rfl⟩ := h.root hroot
      rfl
    · obtain ⟨b, hb⟩ := NameMap.contains_iff.1 hn
      rw [h.builtin b hroot hb]
      exact (Builtin.underRoot_of_get? hb hroot).2.1

end Struct.Guarded

/-! ## Declarations -/

namespace SymbolTable

variable {t t' : SymbolTable} {n : String} {s : Struct}

/-- The built-in structs are in place, and neither the structs that wait nor the open struct is one
of them. -/
structure Guarded (t : SymbolTable) : Prop where
  registered : ∀ n, Builtin.structs.contains n = true → t.contains n = true
  structs : ∀ n s, t.struct? n = some s → s.Guarded n
  waiting : t.pendingParents.Forall fun ws => ∀ w ∈ ws, Builtin.structs.contains w.child = false
  scope : ∀ n, t.scope.struct? = some n →
    Builtin.structs.contains n = false ∧ t.contains n = true

theorem guarded_new : new.Guarded where
  registered _ hn := hn
  structs n s hs := by
    refine ⟨?_, fun b _ hb => Option.some.inj (hs.symm.trans hb), fun hn => ?_⟩
    · rintro rfl
      cases hs
      exact ⟨_, _, rfl⟩
    · rw [NameMap.contains, show Builtin.structs.get? n = some s from hs] at hn
      cases hn
  waiting _ _ h := by cases h
  scope _ h := by cases h

namespace Guarded

theorem insert (h : t.Guarded) {s' : Struct} (hs' : s'.Guarded n) :
    { t with structs := t.structs.insert n s' }.Guarded where
  registered a ha := by
    show (t.structs.insert n s').contains a = true
    rw [NameMap.contains_insert, Bool.or_eq_true]
    exact .inr (h.registered a ha)
  structs a s hs := by
    rw [struct?, NameMap.get?_insert] at hs
    split at hs
    · next ha =>
      cases hs
      exact ha ▸ hs'
    · exact h.structs a s hs
  waiting := h.waiting
  scope a ha := by
    refine ⟨(h.scope a ha).1, ?_⟩
    show (t.structs.insert n s').contains a = true
    rw [NameMap.contains_insert, Bool.or_eq_true]
    exact .inr (h.scope a ha).2

theorem modify (h : t.Guarded) {f : Struct → Struct}
    (hf : ∀ s, s.Guarded n → (f s).Guarded n) :
    { t with structs := t.structs.modify n f }.Guarded where
  registered a ha := by
    show (t.structs.modify n f).contains a = true
    rw [NameMap.contains_modify]
    exact h.registered a ha
  structs a s hs := by
    rw [struct?, NameMap.get?_modify] at hs
    split at hs
    · next ha =>
      obtain ⟨old, hold, rfl⟩ := Option.map_eq_some_iff.1 hs
      exact ha ▸ hf old (h.structs n old hold)
    · exact h.structs a s hs
  waiting := h.waiting
  scope a ha := by
    refine ⟨(h.scope a ha).1, ?_⟩
    show (t.structs.modify n f).contains a = true
    rw [NameMap.contains_modify]
    exact (h.scope a ha).2

/-- A struct that a program declares may move under one that is open. -/
theorem setParent (h : t.Guarded) {c p : String} (hc : Builtin.structs.contains c = false)
    (hp : Builtin.Open p) : (t.setParent c p).Guarded := by
  have hmoved := h.modify (n := c) fun s hs => hs.setParent hc hp s.children
  have hprevious : ∀ q, t.parent? c = some q → Builtin.Open q := by
    intro q hq
    obtain ⟨s, hs, hparent⟩ := Option.bind_eq_some_iff.1 hq
    exact ((h.structs c s hs).user hc).2 q hparent
  unfold SymbolTable.setParent
  cases hq : t.parent? c with
  | none => exact hmoved.modify fun s hs => hs.setChildren hp _ s.instantiated
  | some q =>
    have hleft := hmoved.modify (n := q) fun s hs =>
      hs.setChildren (hprevious q hq) (s.children.erase c) s.instantiated
    exact hleft.modify fun s hs => hs.setChildren hp _ s.instantiated

theorem settle (h : t.Guarded) {token : Token} {p : String}
    (hname : Builtin.structs.contains token.lexeme = false) (hp : Builtin.Open p) (form : Form) :
    (t.settle token p form).Guarded := by
  have hdeclared : (Struct.declare token (some p)).Guarded token.lexeme := by
    refine .of_user hname rfl ?_
    rintro q ⟨⟩
    exact hp
  unfold SymbolTable.settle
  split
  · exact (h.insert hdeclared).modify fun s hs => hs.setChildren hp _ s.instantiated
  · split
    · exact h.setParent hname hp
    · exact h

theorem await (h : t.Guarded) {child : String} (hchild : Builtin.structs.contains child = false)
    (parent : Option Token) : (t.await child parent).Guarded := by
  cases parent with
  | none => exact h
  | some p =>
    unfold SymbolTable.await
    dsimp only
    split
    · exact h
    · refine ⟨h.registered, h.structs, h.waiting.insert ?_ _, h.scope⟩
      intro w hw
      rcases List.mem_append.1 hw with hw | hw
      · cases hwaiting : t.pendingParents.get? p.lexeme with
        | none =>
          rw [hwaiting] at hw
          cases hw
        | some ws =>
          rw [hwaiting] at hw
          exact h.waiting _ ws hwaiting w hw
      · rw [List.mem_singleton.1 hw]
        exact hchild

theorem adopt (h : t.Guarded) {p : String} (hp : Builtin.Open p) {cs : List String}
    (hcs : ∀ c ∈ cs, Builtin.structs.contains c = false) : (t.adopt p cs).Guarded := by
  induction cs generalizing t with
  | nil => exact h
  | cons c cs ih =>
    obtain ⟨hc, hcs⟩ := List.forall_mem_cons.1 hcs
    exact ih (h.setParent hc hp) hcs

theorem adoptWaiting (h : t.Guarded) (hname : Builtin.structs.contains n = false) :
    (t.adoptWaiting n).Guarded := by
  have horphans : ∀ c ∈ t.orphans n, Builtin.structs.contains c = false := by
    intro c hc
    obtain ⟨w, hw, rfl⟩ := List.mem_map.1 hc
    cases hwaiting : t.pendingParents.get? n with
    | none =>
      rw [waitingFor, hwaiting] at hw
      cases hw
    | some ws =>
      rw [waitingFor, hwaiting] at hw
      exact h.waiting _ ws hwaiting w hw
  rw [adoptWaiting_eq]
  have herased : { t with pendingParents := t.pendingParents.erase n }.Guarded :=
    ⟨h.registered, h.structs, h.waiting.erase n, h.scope⟩
  exact herased.adopt (.inr hname) horphans

theorem place (h : t.Guarded) {token : Token} {parent : Option Token} {form : Form}
    (hfree : t.structRefusal? token parent form = none) : (t.place token parent form).Guarded := by
  obtain ⟨hreserved, _, hparents⟩ := structRefusal?_eq_none_iff.1 hfree
  have hname := Builtin.contains_eq_false_of_not_reserved hreserved
  have hhome : Builtin.Open (t.home parent) :=
    (home_open fun p hp => (hparents p hp).1).imp_right And.left
  have hplaced := ((h.await hname parent).settle hname hhome form).adoptWaiting hname
  rw [place_eq_adoptWaiting]
  exact ⟨hplaced.registered, hplaced.structs, hplaced.waiting, hplaced.scope⟩

/-- A declared struct may get other members. -/
theorem insert_of_membersChange (h : t.Guarded) (hn : Builtin.structs.contains n = false)
    (hs : t.struct? n = some s) {s' : Struct} (hchange : s.MembersChange s') :
    { t with structs := t.structs.insert n s' }.Guarded := by
  obtain ⟨_, _, _, _, _, rfl⟩ := hchange
  obtain ⟨hbuiltin, hparent⟩ := (h.structs n s hs).user hn
  exact h.insert (.of_user hn hbuiltin hparent)

theorem setOpenMethod (h : t.Guarded) (m : Method) : (t.setOpenMethod m).Guarded := by
  have hmodify {owner : String} (howner : t.scope.struct? = some owner) {f : Struct → Struct}
      (hf : ∀ s, (f s).builtin = s.builtin ∧ (f s).parent = s.parent) :
      { t with structs := t.structs.modify owner f }.Guarded := by
    refine h.modify fun s hs => ?_
    have huser := (h.scope owner howner).1
    obtain ⟨hbuiltin, hparent⟩ := hs.user huser
    exact .of_user huser ((hf s).1.trans hbuiltin) fun p hp => hparent p ((hf s).2.symm.trans hp)
  unfold SymbolTable.setOpenMethod
  split
  · exact h
  · exact h
  · exact ⟨h.registered, h.structs, h.waiting, h.scope⟩
  · next hscope => exact hmodify (by rw [hscope]; rfl) fun _ => ⟨rfl, rfl⟩
  · next hscope => exact hmodify (by rw [hscope]; rfl) fun _ => ⟨rfl, rfl⟩

end Guarded

/-- A step of a declaration writes to no built-in struct but the root. -/
theorem Step.guarded (hstep : Step t t') (h : t.Guarded) : t'.Guarded := by
  cases hstep with
  | note token =>
    rw [noteType_eq]
    exact ⟨h.registered, h.structs, h.waiting, h.scope⟩
  | @placed token _ form hfree =>
    have hplaced := h.place hfree
    obtain ⟨hreserved, _, hparents⟩ := structRefusal?_eq_none_iff.1 hfree
    have hname := Builtin.contains_eq_false_of_not_reserved hreserved
    have hrecorded := hplaced.modify (n := token.lexeme) (f := (·.recordForm form)) fun s hs => by
      obtain ⟨hbuiltin, hparent⟩ := hs.user hname
      cases form with
      | structural => exact .of_user hname hbuiltin hparent
      | implementation => exact .of_user hname hbuiltin hparent
    refine ⟨hrecorded.registered, hrecorded.structs, hrecorded.waiting, ?_⟩
    rintro n ⟨⟩
    refine ⟨hname, ?_⟩
    rw [(sameTree_enroll _ _ _).contains_eq, contains_place fun p hp => (hparents p hp).2]
    simp
  | misplaced hfree => exact h.place hfree
  | started token =>
    refine ⟨h.registered, h.structs, h.waiting, ?_⟩
    rintro n ⟨⟩
  | @addedMethod owner _ _ token kind _ _ hscope hs hadd =>
    have howner := (h.scope owner hscope).1
    have hadded := h.insert_of_membersChange howner hs (Struct.membersChange_addMethod hadd)
    refine ⟨hadded.registered, hadded.structs, hadded.waiting, fun n hn => ?_⟩
    have hsame : (methodScope owner kind token).struct? = some owner := by
      rw [methodScope]
      split <;> rfl
    exact hadded.scope n (hscope.trans (hsame.symm.trans hn))
  | addedAttribute hscope hs hadd =>
    have howner := (h.scope _ (by rw [hscope]; rfl)).1
    exact h.insert_of_membersChange howner hs (Struct.membersChange_addAttribute hadd)
  | addedBinding => exact h.setOpenMethod _
  | lost scope hscope hnone =>
    have hregistered := (h.scope _ hscope).2
    rw [contains_eq_false_iff_struct?.2 hnone] at hregistered
    cases hregistered
  | close =>
    refine ⟨h.registered, h.structs, h.waiting, ?_⟩
    rintro n ⟨⟩

/-! ## Completions and checks -/

/-- A completion writes to structs that are not complete, and only to their members. -/
theorem Guarded.mergeChild (h : t.Guarded) (parent : Struct) (child : String) :
    (stateAfter (SymbolTable.mergeChild parent child) t).Guarded := by
  rcases stateAfter_mergeChild t parent child with heq | ⟨s, s', hs, hcomplete, hframe, heq⟩
  · rwa [heq]
  · have hguarded := h.structs child s hs
    have hname := hguarded.user_of_consolidated hcomplete
    obtain ⟨hbuiltin, hparent⟩ := hguarded.user hname
    rw [heq]
    refine h.insert (.of_user hname ?_ fun p hp => hparent p ?_)
    · exact (congrArg Struct.builtin hframe).trans hbuiltin
    · exact (congrArg Struct.parent hframe).symm.trans hp

theorem Guarded.consolidate (h : t.Guarded) : (stateAfter consolidate t).Guarded := by
  have hmoves : Moves (fun t t' => Guarded t → Guarded t') SymbolTable.consolidate := by
    apply moves_consolidate
    · exact fun parent child t => .single fun h => h.mergeChild parent child
    · exact fun t h => ⟨h.registered, h.structs, h.waiting, h.scope⟩
  exact hmoves.keeps h

/-- A mark on structs that are open. -/
theorem Guarded.markCreated (h : t.Guarded) {created : NameSet}
    (hopen : ∀ n, created.contains n = true → Builtin.Open n) : (t.markCreated created).Guarded := by
  have hnames : ∀ n ∈ created.names, Builtin.Open n := fun n hn =>
    hopen n (NameMap.mem_names_iff.1 hn)
  unfold SymbolTable.markCreated
  revert hnames
  generalize created.names = names
  intro hnames
  induction names generalizing t with
  | nil => exact h
  | cons n names ih =>
    obtain ⟨hn, hnames⟩ := List.forall_mem_cons.1 hnames
    exact ih (h.modify fun s hs => hs.setChildren hn s.children true) hnames

/-- What an accepted body creates is open: values of the built-in structs cannot be created, except
of the root. -/
theorem Guarded.open_of_infer (h : t.Guarded) {b : Body Unit} {b' : Body Ty}
    (hb : b.infer t = .ok b') {n : String} (hn : n ∈ b'.block.created) : Builtin.Open n := by
  obtain ⟨_, _, _, hblock, rfl⟩ := Body.infer_eq_ok.1 hb
  obtain ⟨_, s, hs, hroot, _⟩ := Block.constructs_of_infer hblock n hn
  have hbuiltin := (h.structs n s hs).builtin_eq
  cases hname : Builtin.structs.contains n with
  | false => exact .inr hname
  | true => exact .inl (hroot (hbuiltin.trans hname))

theorem Guarded.serve (h : t.Guarded) (request : Request) : (t.serve request).Guarded := by
  cases request with
  | call call =>
    have hmoves : Moves (fun t t' => Guarded t → Guarded t') call.run := fun t =>
      Relation.ReflTransGen.mono (fun _ _ => Step.guarded) _ _ (call.moves t)
    exact hmoves.keeps h
  | consolidate => exact h.consolidate
  | check p =>
    rw [SymbolTable.serve, Body.run_mapM_check]
    cases hbodies : p.bodies.mapM (Body.infer t) with
    | error e => exact h
    | ok bodies =>
      obtain ⟨htyped, rfl⟩ := Body.mapM_infer_eq_ok.1 hbodies
      refine h.markCreated fun n hn => ?_
      have hcreated := (NameSet.contains_ofList _ n).symm.trans hn
      obtain ⟨b', hb', hn⟩ := List.mem_flatMap.1 (of_decide_eq_true hcreated)
      obtain ⟨b, hb, rfl⟩ := List.mem_map.1 hb'
      exact h.open_of_infer (htyped b hb) hn

theorem guarded_served (requests : List Request) : (served requests).Guarded := by
  unfold served
  generalize hstart : new = t
  have h : t.Guarded := hstart ▸ guarded_new
  clear hstart
  induction requests generalizing t with
  | nil => exact h
  | cons request requests ih => exact ih _ (h.serve request)

/-- What holds of the built-in structs in every table: each is as it was in the empty table, apart
from the children of the root and the mark that the root has been created, and no other struct counts
as built-in. -/
structure KeepsBuiltins (t : SymbolTable) : Prop where
  builtin : ∀ n b, n ≠ Builtin.root → Builtin.structs.get? n = some b → t.struct? n = some b
  root : ∃ children instantiated,
    t.struct? Builtin.root = some { Builtin.rootStruct with children, instantiated }
  flag : ∀ n s, t.struct? n = some s → (s.builtin = true ↔ new.contains n = true)

theorem Guarded.keepsBuiltins (h : t.Guarded) : t.KeepsBuiltins where
  builtin n b hn hb := by
    obtain ⟨s, hs⟩ := contains_iff_struct?.1 (h.registered n (NameMap.contains_iff.2 ⟨b, hb⟩))
    rw [hs, (h.structs n s hs).builtin b hn hb]
  root := by
    obtain ⟨s, hs⟩ := contains_iff_struct?.1 (h.registered Builtin.root rfl)
    obtain ⟨children, instantiated, heq⟩ := (h.structs _ s hs).root rfl
    exact ⟨children, instantiated, heq ▸ hs⟩
  flag n s hs := Eq.to_iff (congrArg (· = true) (h.structs n s hs).builtin_eq)

/-- Built-in structs are immutable: whatever is declared, completed or checked, and whether it is
accepted or not. -/
theorem keepsBuiltins_served (requests : List Request) : (served requests).KeepsBuiltins :=
  (guarded_served requests).keepsBuiltins

end SymbolTable

end StructLang
