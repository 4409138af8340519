import StructLang.Proofs.Declaration
import StructLang.Proofs.OwnMembers

/-!
# Where a declaration puts a struct

A declaration of a struct changes the tree in up to three ways: a new struct is hung under its
parent, a struct that came with its impl block first is moved under its parent, and all structs that
wait for the new name are moved under it.  The lemmas give the two views of the tree after such a
change.

* What a struct is apart from its parent and its children (`Struct.detached`) never changes.
* `parent?_place` gives the parent of every struct; the children follow, since the list of children
  of a struct always agrees with the parents of the others (`Faithful`).
-/

namespace StructLang

namespace SymbolTable

variable {t : SymbolTable} {c n p q : String}

/-- The children of every struct are the structs with it as their parent. -/
def Faithful (t : SymbolTable) : Prop :=
  ∀ p s c, t.struct? p = some s → (s.children.contains c = true ↔ t.Extends c p)

theorem parent?_of_struct?_eq_none (h : t.struct? n = none) : t.parent? n = none := by
  rw [parent?, h]
  rfl

theorem parent?_of_struct? {s : Struct} (h : t.struct? n = some s) : t.parent? n = s.parent := by
  rw [parent?, h]
  rfl

theorem contains_iff_struct? : t.contains n = true ↔ ∃ s, t.struct? n = some s :=
  NameMap.contains_iff

theorem contains_eq_false_iff_struct? : t.contains n = false ↔ t.struct? n = none :=
  NameMap.contains_eq_false_iff

/-- Tables whose structs agree up to their places have the same names. -/
theorem contains_congr {u : SymbolTable}
    (h : (u.struct? n).map Struct.detached = (t.struct? n).map Struct.detached) :
    u.contains n = t.contains n := by
  have hsome := congrArg Option.isSome h
  rwa [Option.isSome_map, Option.isSome_map] at hsome

/-! ## Moving a struct -/

theorem struct?_setParent (t : SymbolTable) (c p n : String) :
    (t.setParent c p).struct? n = (t.struct? n).map fun s => { s with
      parent := if n = c then some p else s.parent
      children :=
        let others := if t.parent? c = some n then s.children.erase c else s.children
        if n = p then NameSet.insert others c else others } := by
  have hmodify (m : NameMap Struct) (a : String) (f : Struct → Struct) :
      (m.modify a f).get? n = (m.get? n).map fun s => if n = a then f s else s := by
    rw [NameMap.get?_modify]
    by_cases h : n = a
    · simp [h]
    · simp [h]
  -- each change is made in one field
  have hmove (s : Struct) : (if n = c then { s with parent := some p } else s) =
      { s with parent := if n = c then some p else s.parent } := by
    split <;> rfl
  have hchildren (a : String) (f : NameSet → NameSet) (s : Struct) :
      (if n = a then { s with children := f s.children } else s) =
        { s with children := if n = a then f s.children else s.children } := by
    split <;> rfl
  rw [setParent, struct?, struct?]
  cases hparent : t.parent? c with
  | none =>
    simp only [hmodify, Option.map_map]
    refine Option.map_congr fun s _ => ?_
    rw [Function.comp_apply, hmove, hchildren p (·.insert c)]
    rfl
  | some previous =>
    simp only [hmodify, Option.map_map]
    refine Option.map_congr fun s _ => ?_
    rw [Function.comp_apply, Function.comp_apply, hmove, hchildren previous (·.erase c),
      hchildren p (·.insert c)]
    simp only [Option.some.injEq, @eq_comm _ previous n]

theorem detached_setParent (t : SymbolTable) (c p n : String) :
    ((t.setParent c p).struct? n).map Struct.detached = (t.struct? n).map Struct.detached := by
  rw [struct?_setParent, Option.map_map]
  rfl

theorem parent?_setParent (hc : t.contains c = true) (n : String) :
    (t.setParent c p).parent? n = if n = c then some p else t.parent? n := by
  cases hn : t.struct? n with
  | none =>
    have hne : n ≠ c := by
      rintro rfl
      rw [contains_eq_false_iff_struct?.2 hn] at hc
      cases hc
    rw [if_neg hne, parent?_of_struct?_eq_none hn]
    apply parent?_of_struct?_eq_none
    rw [struct?_setParent, hn]
    rfl
  | some s =>
    rw [parent?, struct?_setParent, parent?_of_struct? hn, hn]
    rfl

theorem Faithful.setParent (h : t.Faithful) (hc : t.contains c = true) (p : String) :
    (t.setParent c p).Faithful := by
  intro q s' d hq
  rw [struct?_setParent, Option.map_eq_some_iff] at hq
  obtain ⟨s, hs, rfl⟩ := hq
  have hold := h q s d hs
  rw [Extends] at hold ⊢
  rw [parent?_setParent hc]
  show (if q = p then NameSet.insert _ c else _ : NameSet).contains d = true ↔ _
  by_cases hd : d = c
  · subst hd
    by_cases hqp : q = p
    · simp [hqp]
    · by_cases hprev : t.parent? d = some q
      · simp [hqp, hprev, Ne.symm hqp]
      · simp [hqp, hprev, Ne.symm hqp, hold]
  · rw [if_neg hd, ← hold]
    have hothers : (if t.parent? c = some q then s.children.erase c else s.children).contains d =
        s.children.contains d := by
      split <;> simp [hd]
    split <;> simp [hothers, hd]

/-! ## Adding a struct -/

theorem struct?_addStruct (t : SymbolTable) (token : Token) (p n : String) :
    (t.addStruct token p).struct? n =
      (if n = token.lexeme then some (.declare token (some p)) else t.struct? n).map fun s =>
        { s with
          children := if n = p then NameSet.insert s.children token.lexeme else s.children } := by
  rw [addStruct, struct?, NameMap.get?_modify, NameMap.get?_insert, NameMap.get?_insert, struct?]
  by_cases h : n = p
  · simp [h]
  · simp [h]

theorem detached_addStruct (t : SymbolTable) (token : Token) (p n : String) :
    ((t.addStruct token p).struct? n).map Struct.detached =
      if n = token.lexeme then some (Struct.declare token none).detached
      else (t.struct? n).map Struct.detached := by
  rw [struct?_addStruct, Option.map_map]
  by_cases hn : n = token.lexeme
  · rw [if_pos hn, if_pos hn]
    rfl
  · rw [if_neg hn, if_neg hn]
    rfl

theorem parent?_addStruct (t : SymbolTable) (token : Token) (p n : String) :
    (t.addStruct token p).parent? n = if n = token.lexeme then some p else t.parent? n := by
  rw [parent?, struct?_addStruct, parent?]
  by_cases hn : n = token.lexeme
  · rw [if_pos hn, if_pos hn]
    rfl
  · rw [if_neg hn, if_neg hn]
    cases t.struct? n <;> rfl

theorem Faithful.addStruct (h : t.Faithful) {token : Token}
    (hnew : t.contains token.lexeme = false)
    (hparents : ∀ c p, t.Extends c p → t.contains p = true) (hp : t.contains p = true) :
    (t.addStruct token p).Faithful := by
  intro q s' d hq
  have hne : token.lexeme ≠ p := by
    rintro rfl
    rw [hnew] at hp
    cases hp
  rw [struct?_addStruct, Option.map_eq_some_iff] at hq
  obtain ⟨s, hs, rfl⟩ := hq
  rw [Extends, parent?_addStruct]
  show (if q = p then NameSet.insert s.children token.lexeme else s.children).contains d = true ↔ _
  by_cases hqn : q = token.lexeme
  · -- the new struct has no children: no parent was unregistered before
    rw [if_pos hqn] at hs
    cases hs
    have hqp : q ≠ p := hqn ▸ hne
    rw [if_neg hqp]
    have hempty : ∀ d, (Struct.declare token (some p)).children.contains d = false := fun _ => rfl
    by_cases hd : d = token.lexeme
    · simp [hempty, hd, Ne.symm hqp]
    · have hno : t.parent? d ≠ some q := by
        intro hextends
        have hcontains := hparents d q hextends
        rw [hqn, hnew] at hcontains
        cases hcontains
      simp [hempty, hd, hno]
  · rw [if_neg hqn] at hs
    have hold := h q s d hs
    rw [Extends] at hold
    by_cases hd : d = token.lexeme
    · have hnone : t.parent? d = none := by
        rw [hd]
        exact parent?_of_struct?_eq_none (contains_eq_false_iff_struct?.1 hnew)
      rw [hnone] at hold
      by_cases hqp : q = p
      · simp [hqp, hd]
      · simp [hqp, hd, Ne.symm hqp]
        simpa [hd] using hold
    · rw [if_neg hd, ← hold]
      by_cases hqp : q = p <;> simp [hqp, hd]

/-! ## Adopting the structs that wait -/

/-- The structs that wait for a parent. -/
def waitingFor (t : SymbolTable) (p : String) : List Waiting := (t.pendingParents.get? p).getD []

/-- The names of the structs that wait for a parent. -/
def orphans (t : SymbolTable) (p : String) : List String := (t.waitingFor p).map (·.child)

/-- The table with structs moved under a parent, one after the other. -/
def adopt (t : SymbolTable) (p : String) (cs : List String) : SymbolTable :=
  cs.foldl (fun t c => t.setParent c p) t

theorem adoptWaiting_eq (t : SymbolTable) (p : String) :
    t.adoptWaiting p =
      { t with pendingParents := t.pendingParents.erase p }.adopt p (t.orphans p) := by
  rw [adoptWaiting, adopt, orphans, waitingFor]
  cases h : t.pendingParents.get? p with
  | none =>
    have herase : t.pendingParents.erase p = t.pendingParents := by
      refine NameMap.ext_get? fun n => ?_
      by_cases hn : n = p
      · simp [hn, h]
      · simp [hn]
    simp [herase]
  | some waiting => simp [List.foldl_map]

/-- Only the structs change. -/
theorem adopt_eq (t : SymbolTable) (p : String) (cs : List String) :
    t.adopt p cs = { t with structs := (t.adopt p cs).structs } := by
  induction cs generalizing t with
  | nil => rfl
  | cons c cs ih => exact ih (t.setParent c p)

theorem detached_adopt (t : SymbolTable) (p : String) (cs : List String) (n : String) :
    ((t.adopt p cs).struct? n).map Struct.detached = (t.struct? n).map Struct.detached := by
  induction cs generalizing t with
  | nil => rfl
  | cons c cs ih => exact (ih (t.setParent c p)).trans (detached_setParent t c p n)

theorem contains_setParent (t : SymbolTable) (c p n : String) :
    (t.setParent c p).contains n = t.contains n :=
  contains_congr (detached_setParent t c p n)

theorem parent?_adopt {cs : List String} (hcs : ∀ c ∈ cs, t.contains c = true) (n : String) :
    (t.adopt p cs).parent? n = if n ∈ cs then some p else t.parent? n := by
  induction cs generalizing t with
  | nil => simp [adopt]
  | cons c cs ih =>
    have hc := hcs c List.mem_cons_self
    have hrest : ∀ d ∈ cs, (t.setParent c p).contains d = true := fun d hd => by
      rw [contains_setParent]
      exact hcs d (List.mem_cons_of_mem _ hd)
    show ((t.setParent c p).adopt p cs).parent? n = _
    rw [ih hrest, parent?_setParent hc]
    by_cases hmem : n ∈ cs <;> by_cases hn : n = c <;> simp [hmem, hn]

theorem Faithful.adopt (h : t.Faithful) {cs : List String} (hcs : ∀ c ∈ cs, t.contains c = true)
    (p : String) : (t.adopt p cs).Faithful := by
  induction cs generalizing t with
  | nil => exact h
  | cons c cs ih =>
    refine ih (h.setParent (hcs c List.mem_cons_self) p) fun d hd => ?_
    rw [contains_setParent]
    exact hcs d (List.mem_cons_of_mem _ hd)

/-! ## Taking a place -/

/-- The place that a declared parent gives at once. -/
def home (t : SymbolTable) : Option Token → String
  | none => Builtin.root
  | some p => if t.contains p.lexeme then p.lexeme else Builtin.root

/-- The table with a struct noted as waiting, if its parent is not registered. -/
def await (t : SymbolTable) (child : String) : Option Token → SymbolTable
  | none => t
  | some p => if t.contains p.lexeme then t else t.awaitParent child p

/-- The table with a struct under a parent: a new struct is added, and one whose impl block came
first is moved when its struct item comes. -/
def settle (t : SymbolTable) (token : Token) (p : String) (form : Form) : SymbolTable :=
  if !t.contains token.lexeme then t.addStruct token p
  else if form = .structural then t.setParent token.lexeme p
  else t

theorem structs_setParent_congr {u : SymbolTable} (h : u.structs = t.structs) (c p : String) :
    (u.setParent c p).structs = (t.setParent c p).structs := by
  have hparent : u.parent? c = t.parent? c := by
    rw [parent?, parent?, struct?, struct?, h]
  simp only [setParent, h, hparent]

theorem structs_adopt_congr {u : SymbolTable} (h : u.structs = t.structs) (p : String)
    (cs : List String) : (u.adopt p cs).structs = (t.adopt p cs).structs := by
  induction cs generalizing t u with
  | nil => exact h
  | cons c cs ih => exact ih (structs_setParent_congr h c p)

theorem structs_settle_congr {u : SymbolTable} (h : u.structs = t.structs) (token : Token)
    (p : String) (form : Form) :
    (u.settle token p form).structs = (t.settle token p form).structs := by
  have hcontains : u.contains token.lexeme = t.contains token.lexeme := by
    rw [contains, contains, h]
  simp only [settle, hcontains]
  split
  · simp only [addStruct, h]
  · split
    · exact structs_setParent_congr h token.lexeme p
    · exact h

/-- Only the structs change. -/
theorem settle_eq (t : SymbolTable) (token : Token) (p : String) (form : Form) :
    t.settle token p form = { t with structs := (t.settle token p form).structs } := by
  rw [settle]
  split
  · rfl
  · split <;> rfl

theorem structs_await (t : SymbolTable) (child : String) (parent : Option Token) :
    (t.await child parent).structs = t.structs := by
  cases parent with
  | none => rfl
  | some p =>
    rw [await]
    split <;> rfl

theorem await_eq (t : SymbolTable) (child : String) (parent : Option Token) :
    t.await child parent = { t with pendingParents := (t.await child parent).pendingParents } := by
  cases parent with
  | none => rfl
  | some p =>
    rw [await]
    split <;> rfl

theorem place_eq_adoptWaiting (t : SymbolTable) (token : Token) (parent : Option Token)
    (form : Form) :
    t.place token parent form =
      let t := ((t.await token.lexeme parent).settle token (t.home parent) form).adoptWaiting
        token.lexeme
      { t with pendingTypes := t.pendingTypes.erase token.lexeme } := by
  unfold place
  cases parent with
  | none => rfl
  | some p =>
    by_cases h : t.contains p.lexeme = true
    · simp only [home, await, h, if_true]
      rfl
    · simp only [home, await, h]
      rfl

/-- The structs that wait for another name stay as they are. -/
theorem pendingParents_await_of_ne {token : Token} {parent : Option Token} {child : String}
    (hne : ∀ p, parent = some p → p.lexeme ≠ token.lexeme) :
    (t.await child parent).pendingParents.get? token.lexeme =
      t.pendingParents.get? token.lexeme := by
  cases parent with
  | none => rfl
  | some p =>
    rw [await]
    split
    · rfl
    · rw [awaitParent, NameMap.get?_insert, if_neg (Ne.symm (hne p rfl))]

/-- The table that a declaration leaves, in one record. -/
theorem place_eq {token : Token} {parent : Option Token}
    (hne : ∀ p, parent = some p → p.lexeme ≠ token.lexeme) (form : Form) :
    t.place token parent form = { t with
      structs := ((t.settle token (t.home parent) form).adopt token.lexeme
        (t.orphans token.lexeme)).structs
      pendingParents := (t.await token.lexeme parent).pendingParents.erase token.lexeme
      pendingTypes := t.pendingTypes.erase token.lexeme } := by
  have hsettled : (t.await token.lexeme parent).settle token (t.home parent) form = { t with
      structs := (t.settle token (t.home parent) form).structs
      pendingParents := (t.await token.lexeme parent).pendingParents } := by
    rw [settle_eq, structs_settle_congr (structs_await t token.lexeme parent), await_eq]
  rw [place_eq_adoptWaiting, hsettled, adoptWaiting_eq, adopt_eq]
  have horphans : orphans { t with
      structs := (t.settle token (t.home parent) form).structs
      pendingParents := (t.await token.lexeme parent).pendingParents } token.lexeme =
      t.orphans token.lexeme := by
    rw [orphans, orphans, waitingFor, waitingFor, pendingParents_await_of_ne hne]
  have hstructs := structs_adopt_congr (t := t.settle token (t.home parent) form) (u := { t with
      structs := (t.settle token (t.home parent) form).structs
      pendingParents := (t.await token.lexeme parent).pendingParents.erase token.lexeme })
    rfl token.lexeme (t.orphans token.lexeme)
  rw [horphans]
  exact congrArg (fun structs => ({ t with
    structs
    pendingParents := (t.await token.lexeme parent).pendingParents.erase token.lexeme
    pendingTypes := t.pendingTypes.erase token.lexeme } : SymbolTable)) hstructs

section Settled

variable {token : Token} {parent : Option Token} {form : Form}

theorem detached_settle (t : SymbolTable) (token : Token) (p : String) (form : Form) (n : String) :
    ((t.settle token p form).struct? n).map Struct.detached =
      if n = token.lexeme ∧ t.contains token.lexeme = false then
        some (Struct.declare token none).detached
      else (t.struct? n).map Struct.detached := by
  rw [settle]
  cases hnew : t.contains token.lexeme with
  | false => simpa using detached_addStruct t token p n
  | true =>
    by_cases hform : form = .structural
    · simpa [hform] using detached_setParent t token.lexeme p n
    · simp [hform]

theorem parent?_settle (t : SymbolTable) (token : Token) (p : String) (form : Form) (n : String) :
    (t.settle token p form).parent? n =
      if n = token.lexeme ∧ (t.contains token.lexeme = false ∨ form = .structural) then some p
      else t.parent? n := by
  rw [settle]
  cases hnew : t.contains token.lexeme with
  | false => simpa using parent?_addStruct t token p n
  | true =>
    by_cases hform : form = .structural
    · simpa [hform] using parent?_setParent hnew n
    · simp [hform]

/-- Apart from its place, a registered struct stays as it is, and a new one has no members. -/
theorem detached_place (hne : ∀ p, parent = some p → p.lexeme ≠ token.lexeme) (n : String) :
    ((t.place token parent form).struct? n).map Struct.detached =
      if n = token.lexeme ∧ t.contains token.lexeme = false then
        some (Struct.declare token none).detached
      else (t.struct? n).map Struct.detached := by
  rw [place_eq hne]
  exact (detached_adopt _ _ _ n).trans (detached_settle t token (t.home parent) form n)

theorem contains_settle (t : SymbolTable) (token : Token) (p : String) (form : Form) (n : String) :
    (t.settle token p form).contains n = (decide (n = token.lexeme) || t.contains n) := by
  have hsome := congrArg Option.isSome (detached_settle t token p form n)
  rw [Option.isSome_map] at hsome
  rw [contains, NameMap.contains, ← struct?, hsome]
  by_cases hn : n = token.lexeme
  · subst hn
    cases hnew : t.contains token.lexeme with
    | false => simp
    | true => simpa [contains, NameMap.contains, struct?] using hnew
  · simp [hn, contains, NameMap.contains, struct?]

theorem contains_place (hne : ∀ p, parent = some p → p.lexeme ≠ token.lexeme) (n : String) :
    (t.place token parent form).contains n = (decide (n = token.lexeme) || t.contains n) := by
  rw [place_eq hne, ← contains_settle t token (t.home parent) form n]
  exact contains_congr (detached_adopt _ _ _ n)

/-- The parents after a declaration: waiting structs are adopted, and the struct itself moves when
it is new or when its struct item comes. -/
theorem parent?_place (hne : ∀ p, parent = some p → p.lexeme ≠ token.lexeme)
    (horphans : ∀ c ∈ t.orphans token.lexeme, t.contains c = true) (n : String) :
    (t.place token parent form).parent? n =
      if n ∈ t.orphans token.lexeme then some token.lexeme
      else if n = token.lexeme ∧ (t.contains token.lexeme = false ∨ form = .structural) then
        some (t.home parent)
      else t.parent? n := by
  have hsettled : ∀ c ∈ t.orphans token.lexeme,
      (t.settle token (t.home parent) form).contains c = true := fun c hc => by
    simp [contains_settle, horphans c hc]
  rw [place_eq hne, ← parent?_settle]
  exact parent?_adopt hsettled n

theorem Faithful.place (h : t.Faithful) (hne : ∀ p, parent = some p → p.lexeme ≠ token.lexeme)
    (horphans : ∀ c ∈ t.orphans token.lexeme, t.contains c = true)
    (hparents : ∀ c p, t.Extends c p → t.contains p = true)
    (hroot : t.contains Builtin.root = true) :
    (t.place token parent form).Faithful := by
  have hhome : t.contains (t.home parent) = true := by
    cases parent with
    | none => exact hroot
    | some p =>
      rw [home]
      split
      · assumption
      · exact hroot
  have hsettle : (t.settle token (t.home parent) form).Faithful := by
    rw [settle]
    cases hnew : t.contains token.lexeme with
    | false => exact h.addStruct hnew hparents hhome
    | true =>
      by_cases hform : form = .structural
      · simpa [hform] using h.setParent hnew (t.home parent)
      · simpa [hform] using h
  rw [place_eq hne]
  refine hsettle.adopt (fun c hc => ?_) token.lexeme
  simp [contains_settle, horphans c hc]

theorem pendingParents_place (hne : ∀ p, parent = some p → p.lexeme ≠ token.lexeme)
    {ws : List Waiting} (h : (t.place token parent form).pendingParents.get? p = some ws) :
    p ≠ token.lexeme ∧
      (t.pendingParents.get? p = some ws ∨ t.contains p = false ∧ ws ≠ []) := by
  rw [place_eq hne, NameMap.get?_erase] at h
  by_cases hp : p = token.lexeme
  · rw [if_pos hp] at h
    cases h
  rw [if_neg hp] at h
  refine ⟨hp, ?_⟩
  cases parent with
  | none => exact .inl h
  | some q =>
    rw [await] at h
    split at h
    · exact .inl h
    · next hq =>
      rw [awaitParent, NameMap.get?_insert] at h
      by_cases hpq : p = q.lexeme
      · rw [if_pos hpq, Option.some.injEq] at h
        exact .inr ⟨hpq ▸ Bool.eq_false_iff.2 hq, by simp [← h]⟩
      · rw [if_neg hpq] at h
        exact .inl h

/-- Who waits after a declaration: nobody waits for the new name, and the struct itself waits for a
parent that is not registered. -/
theorem mem_orphans_place (hne : ∀ p, parent = some p → p.lexeme ≠ token.lexeme) :
    c ∈ (t.place token parent form).orphans p ↔ p ≠ token.lexeme ∧
      (c ∈ t.orphans p ∨
        c = token.lexeme ∧ t.contains p = false ∧ parent.map (·.lexeme) = some p) := by
  have hplaced : (t.place token parent form).orphans p =
      ((((t.await token.lexeme parent).pendingParents.erase token.lexeme).get? p).getD []).map
        (·.child) := by
    rw [place_eq hne]
    rfl
  rw [hplaced, NameMap.get?_erase]
  by_cases hp : p = token.lexeme
  · simp [hp]
  rw [if_neg hp]
  cases parent with
  | none => simp [await, hp, orphans, waitingFor]
  | some q =>
    rw [await]
    by_cases hq : t.contains q.lexeme = true
    · have hnot : t.contains p = false → q.lexeme ≠ p := by
        rintro hfalse rfl
        rw [hq] at hfalse
        cases hfalse
      simp only [hq, if_true, hp, ne_eq, not_false_eq_true, true_and, Option.map_some,
        Option.some.injEq]
      constructor
      · exact .inl
      · rintro (hc | ⟨_, hfalse, heq⟩)
        · exact hc
        · exact absurd heq (hnot hfalse)
    · rw [if_neg hq, awaitParent, NameMap.get?_insert]
      by_cases hqp : p = q.lexeme
      · subst hqp
        simp [orphans, waitingFor, hp, Bool.eq_false_iff.2 hq]
      · simp [orphans, waitingFor, hp, hqp, Ne.symm hqp]

end Settled

end SymbolTable

end StructLang
