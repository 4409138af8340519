import Mathlib.Logic.Relation

/-!
# Runs of actions

An action on a state may fail on the way and keeps the state that it has reached.  The lemmas below
open a run that succeeds (`run_bind_eq_ok`, `run_forM_cons_eq_ok`) or fails (`run_bind_eq_error`,
`run_forM_eq_error`).  `Moves r x` says that the state after a run of `x`, failed or not, is reached
from the state before by steps of a relation `r`; it is kept by sequencing, so that it has to be
shown for the elementary actions only.  `Secures keeps faults x` says that runs of `x` keep a
property of the state, and that their errors are of a kind.
-/

namespace StructLang

variable {ε σ α β : Type}

/-! ## Runs that succeed -/

theorem map_eq_ok_iff {x : Except ε α} {f : α → β} {b : β} :
    x.map f = .ok b ↔ ∃ a, x = .ok a ∧ f a = b := by
  cases x <;> simp [Except.map]

theorem bind_eq_ok_iff {x : Except ε α} {f : α → Except ε β} {b : β} :
    (x >>= f) = .ok b ↔ ∃ a, x = .ok a ∧ f a = .ok b := by
  cases x with
  | error e =>
    constructor
    · intro h
      cases h
    · rintro ⟨a, ha, _⟩
      cases ha
  | ok a =>
    constructor
    · exact fun h => ⟨a, rfl, h⟩
    · rintro ⟨a', ha, h⟩
      cases ha
      exact h

theorem exists_of_isOk {x : Except ε α} (h : x.isOk = true) : ∃ a, x = .ok a := by
  cases x with
  | error e => cases h
  | ok a => exact ⟨a, rfl⟩

theorem run_bind_eq_ok {x : EStateM ε σ α} {f : α → EStateM ε σ β} {s t : σ} {b : β} :
    (x >>= f).run s = .ok b t ↔ ∃ a s', x.run s = .ok a s' ∧ (f a).run s' = .ok b t := by
  rw [EStateM.run_bind]
  cases h : x.run s with
  | ok a s' =>
    constructor
    · intro hrun
      exact ⟨a, s', rfl, hrun⟩
    · rintro ⟨a', s'', heq, hrun⟩
      cases heq
      exact hrun
  | error e s' => simp

theorem run_forM_nil {f : α → EStateM ε σ Unit} {s : σ} :
    (List.forM [] f).run s = .ok () s := rfl

theorem run_forM_cons_eq_ok {f : α → EStateM ε σ Unit} {a : α} {as : List α} {s t : σ} :
    (List.forM (a :: as) f).run s = .ok () t ↔
      ∃ s', (f a).run s = .ok () s' ∧ (as.forM f).run s' = .ok () t := by
  show (f a >>= fun _ => as.forM f).run s = .ok () t ↔ _
  rw [run_bind_eq_ok]
  exact ⟨fun ⟨_, s', h⟩ => ⟨s', h⟩, fun ⟨s', h⟩ => ⟨(), s', h⟩⟩

/-! ## Runs that fail -/

theorem run_bind_eq_error {x : EStateM ε σ α} {f : α → EStateM ε σ β} {s t : σ} {e : ε} :
    (x >>= f).run s = .error e t ↔
      x.run s = .error e t ∨ ∃ a s', x.run s = .ok a s' ∧ (f a).run s' = .error e t := by
  rw [EStateM.run_bind]
  cases h : x.run s with
  | ok a s' =>
    constructor
    · exact fun hrun => .inr ⟨a, s', rfl, hrun⟩
    · rintro (hrun | ⟨a', s'', heq, hrun⟩)
      · cases hrun
      · cases heq
        exact hrun
  | error e' s' => simp

/-- A loop that fails has got through the elements before the one that it fails at. -/
theorem run_forM_eq_error {f : α → EStateM ε σ Unit} {as : List α} {s t : σ} {e : ε}
    (h : (as.forM f).run s = .error e t) :
    ∃ before a after s', as = before ++ a :: after ∧ (before.forM f).run s = .ok () s' ∧
      (f a).run s' = .error e t := by
  induction as generalizing s with
  | nil => cases h
  | cons a as ih =>
    rcases run_bind_eq_error.1 h with h | ⟨_, s₁, h₁, h⟩
    · exact ⟨[], a, as, s, rfl, rfl, h⟩
    · obtain ⟨before, b, after, s', rfl, hbefore, hb⟩ := ih h
      exact ⟨a :: before, b, after, s', rfl, run_forM_cons_eq_ok.2 ⟨s₁, h₁, hbefore⟩, hb⟩

/-- What comes out of an action that leaves the state as it is and may find an error. -/
def checked (error? : Option ε) (s : σ) : EStateM.Result ε σ Unit :=
  match error? with
  | none => .ok () s
  | some e => .error e s

theorem run_forM_checked {f : α → EStateM ε σ Unit} {as : List α} {s : σ} {error? : α → Option ε}
    (h : ∀ a ∈ as, (f a).run s = checked (error? a) s) :
    (as.forM f).run s = checked (as.findSome? error?) s := by
  induction as with
  | nil => rfl
  | cons a as ih =>
    obtain ⟨ha, has⟩ := List.forall_mem_cons.1 h
    show (f a >>= fun _ => as.forM f).run s = _
    rw [EStateM.run_bind, ha, List.findSome?_cons]
    cases error? a with
    | none => exact ih has
    | some e => rfl

theorem run_bind_checked {x : EStateM ε σ Unit} {f : Unit → EStateM ε σ β} {s : σ}
    {error? : Option ε} {e : ε} (hx : x.run s = checked error? s) (hf : (f ()).run s = .error e s) :
    (x >>= f).run s = .error (error?.getD e) s := by
  rw [EStateM.run_bind, hx]
  cases error? with
  | none => exact hf
  | some e' => rfl

/-- A loop that fails at an element, and before it only checks. -/
theorem run_forM_stopped {f : α → EStateM ε σ Unit} {before after : List α} {a : α} {s : σ}
    {error? : α → Option ε} {e : ε} (hbefore : ∀ b ∈ before, (f b).run s = checked (error? b) s)
    (ha : (f a).run s = .error e s) :
    ((before ++ a :: after).forM f).run s = .error ((before.findSome? error?).getD e) s := by
  rw [List.forM_eq_forM, List.forM_append]
  refine run_bind_checked (run_forM_checked hbefore) ?_
  exact run_bind_eq_error.2 (.inl ha)

/-! ## States after a run -/

/-- The state that a run leaves, whether it succeeds or fails. -/
def stateAfter (x : EStateM ε σ α) (s : σ) : σ :=
  match x.run s with
  | .ok _ t | .error _ t => t

theorem stateAfter_of_error {x : EStateM ε σ α} {s t : σ} {e : ε} (h : x.run s = .error e t) :
    stateAfter x s = t := by
  rw [stateAfter, h]

theorem stateAfter_of_ok {x : EStateM ε σ α} {s t : σ} {a : α} (h : x.run s = .ok a t) :
    stateAfter x s = t := by
  rw [stateAfter, h]

/-- Whether a computation succeeds. -/
def succeeds (x : EStateM ε σ α) (s : σ) : Bool :=
  match x.run s with
  | .ok _ _ => true
  | .error _ _ => false

theorem run_of_succeeds {x : EStateM ε σ Unit} {s : σ} (h : succeeds x s = true) :
    x.run s = .ok () (stateAfter x s) := by
  rw [succeeds] at h
  rw [stateAfter]
  cases hrun : x.run s with
  | ok a t => rfl
  | error e t =>
    rw [hrun] at h
    cases h

/-- The error of a run that fails. -/
def errorOf? (x : EStateM ε σ α) (s : σ) : Option ε :=
  match x.run s with
  | .ok _ _ => none
  | .error e _ => some e

theorem run_of_errorOf? {x : EStateM ε σ α} {s : σ} {e : ε} (h : errorOf? x s = some e) :
    x.run s = .error e (stateAfter x s) := by
  rw [errorOf?] at h
  rw [stateAfter]
  cases hrun : x.run s with
  | ok a t =>
    rw [hrun] at h
    cases h
  | error e' t =>
    rw [hrun] at h
    cases h
    rfl

/-- Every run of `x` ends in a state that steps of `r` reach. -/
def Moves (r : σ → σ → Prop) (x : EStateM ε σ α) : Prop :=
  ∀ s, Relation.ReflTransGen r s (stateAfter x s)

namespace Moves

variable {r : σ → σ → Prop} {x : EStateM ε σ α}

theorem of_ok (h : Moves r x) {s t : σ} {a : α} (hrun : x.run s = .ok a t) :
    Relation.ReflTransGen r s t :=
  stateAfter_of_ok hrun ▸ h s

theorem pure (a : α) : Moves r (Pure.pure a : EStateM ε σ α) := fun _ => .refl

theorem bind {f : α → EStateM ε σ β} (hx : Moves r x) (hf : ∀ a, Moves r (f a)) :
    Moves r (x >>= f) := by
  intro s
  have hfirst := hx s
  rw [stateAfter] at hfirst
  rw [stateAfter, EStateM.run_bind]
  cases h : x.run s with
  | ok a s' =>
    rw [h] at hfirst
    exact hfirst.trans (hf a s')
  | error e s' =>
    rw [h] at hfirst
    exact hfirst

theorem forM {f : α → EStateM ε σ Unit} (hf : ∀ a, Moves r (f a)) (as : List α) :
    Moves r (as.forM f) := by
  induction as with
  | nil => exact Moves.pure ()
  | cons a as ih => exact Moves.bind (hf a) fun _ => ih

/-- Steps that keep a property add up to a run that keeps it. -/
theorem keeps {p : σ → Prop} (h : Moves (fun s s' => p s → p s') x) {s : σ} (hs : p s) :
    p (stateAfter x s) := by
  have hreaches := h s
  generalize stateAfter x s = t at hreaches ⊢
  induction hreaches with
  | refl => exact hs
  | tail _ hstep ih => exact hstep ih

end Moves

/-! ## Runs that keep a property -/

section Secures

variable {keeps : σ → Prop} {faults : ε → Prop}

/-- The action keeps a property of the state where it succeeds, and its errors are of a kind. -/
def Secures (keeps : σ → Prop) (faults : ε → Prop) (x : EStateM ε σ α) : Prop :=
  ∀ s, keeps s → match x.run s with
    | .ok _ s' => keeps s'
    | .error e _ => faults e

namespace Secures

variable {x : EStateM ε σ α}

theorem of_ok (h : Secures keeps faults x) {s s' : σ} {a : α} (hs : keeps s)
    (hrun : x.run s = .ok a s') : keeps s' := by
  have hresult := h s hs
  rw [hrun] at hresult
  exact hresult

theorem of_error (h : Secures keeps faults x) {s s' : σ} {e : ε} (hs : keeps s)
    (hrun : x.run s = .error e s') : faults e := by
  have hresult := h s hs
  rw [hrun] at hresult
  exact hresult

theorem pure (a : α) : Secures keeps faults (Pure.pure a : EStateM ε σ α) := fun _ hs => hs

theorem modify {f : σ → σ} (hf : ∀ s, keeps s → keeps (f s)) :
    Secures keeps faults (modify f : EStateM ε σ PUnit) := hf

theorem bind {f : α → EStateM ε σ β} (hx : Secures keeps faults x)
    (hf : ∀ a, Secures keeps faults (f a)) : Secures keeps faults (x >>= f) := by
  intro s hs
  have hfirst := hx s hs
  rw [EStateM.run_bind]
  cases hrun : x.run s with
  | ok a s' =>
    rw [hrun] at hfirst
    exact hf a s' hfirst
  | error e s' =>
    rw [hrun] at hfirst
    exact hfirst

theorem forM {f : α → EStateM ε σ PUnit} {as : List α} (hf : ∀ a ∈ as, Secures keeps faults (f a)) :
    Secures keeps faults (as.forM f) := by
  induction as with
  | nil => exact Secures.pure ()
  | cons a as ih =>
    obtain ⟨ha, has⟩ := List.forall_mem_cons.1 hf
    exact Secures.bind ha fun _ => ih has

end Secures

end Secures

end StructLang
