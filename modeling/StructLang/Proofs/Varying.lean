import StructLang.Proofs.NameMap
import StructLang.Proofs.StateRun

/-!
# Computations with several results

`Varying` is like `EStateM`, except that a run may end in more than one way: it relates a state to
the results that are possible.  `anyOrder` is the only source of choice.  It gives the elements of a
list in an arbitrary order, and every use of it chooses anew.

`Settles x y s` says that the choices in `x` do not show: from the state `s`, the one possible result
of `x` is that of `y`.  It passes through sequences (`Settles.bind`) and lists (`Settles.mapM`), and
an enumeration is settled when what follows it gives the same for every order (`Settles.anyOrder`).
What follows is usually a sort, and a sort undoes the choice if no two elements have one key
(`sortByKey_eq_of_perm`).
-/

namespace StructLang

variable {ε σ α β : Type}

/-- A computation over states with its possible results. -/
def Varying (ε σ α : Type) : Type := σ → EStateM.Result ε σ α → Prop

namespace Varying

instance : Monad (Varying ε σ) where
  pure a := fun s r => r = .ok a s
  bind x f := fun s r => ∃ first, x s first ∧
    match first with
    | .ok a s' => f a s' r
    | .error e s' => r = .error e s'

/-- A computation with one result. -/
def of (x : EStateM ε σ α) : Varying ε σ α := fun s r => r = x.run s

/-- The elements of a list in any order. -/
def anyOrder (l : List α) : Varying ε σ (List α) :=
  fun s r => ∃ l' : List α, l'.Perm l ∧ r = .ok l' s

/-- The possible results without the states in which they are reached. -/
def Gives (x : Varying ε σ α) (s : σ) : Except ε α → Prop
  | .ok a => ∃ s', x s (.ok a s')
  | .error e => ∃ s', x s (.error e s')

/-! ## Settled computations -/

/-- The only possible result of `x` from `s` is that of `y`. -/
def Settles (x : Varying ε σ α) (y : EStateM ε σ α) (s : σ) : Prop := ∀ r, x s r ↔ r = y.run s

theorem settles_of (y : EStateM ε σ α) (s : σ) : Settles (of y) y s := fun _ => Iff.rfl

theorem settles_pure (a : α) (s : σ) :
    Settles (pure a : Varying ε σ α) (pure a : EStateM ε σ α) s := fun _ => Iff.rfl

namespace Settles

variable {x : Varying ε σ α} {y : EStateM ε σ α} {s : σ}

theorem congr {z : EStateM ε σ α} (h : Settles x y s) (hrun : z.run s = y.run s) :
    Settles x z s := by
  intro r
  rw [hrun]
  exact h r

theorem bind {f : α → Varying ε σ β} {g : α → EStateM ε σ β} (hx : Settles x y s)
    (hf : ∀ a s', y.run s = .ok a s' → Settles (f a) (g a) s') :
    Settles (x >>= f) (y >>= g) s := by
  intro r
  have hfirst : (x >>= f) s r ↔ match y.run s with
      | .ok a s' => f a s' r
      | .error e s' => r = .error e s' := by
    constructor
    · rintro ⟨first, hx', hrest⟩
      rwa [(hx first).1 hx'] at hrest
    · exact fun hrest => ⟨y.run s, (hx _).2 rfl, hrest⟩
  rw [hfirst, EStateM.run_bind]
  cases hrun : y.run s with
  | ok a s' => exact hf a s' hrun r
  | error e s' => exact Iff.rfl

/-- What starts with a look at the state. -/
theorem get_bind {f : σ → Varying ε σ β} {z : EStateM ε σ β} (h : Settles (f s) z s) :
    Settles (of get >>= f) z s :=
  (settles_of get s).bind (g := fun _ => z) fun _ _ hrun => by
    cases hrun
    exact h

/-- A settled value is passed on. -/
theorem pure_bind {f : α → Varying ε σ β} {z : EStateM ε σ β} {a : α} (hx : Settles x (pure a) s)
    (hf : Settles (f a) z s) : Settles (x >>= f) z s :=
  hx.bind (g := fun _ => z) fun _ _ hrun => by
    cases hrun
    exact hf

/-- An enumeration is settled by what follows it. -/
theorem anyOrder {l : List α} {f : List α → Varying ε σ β} {z : EStateM ε σ β}
    (h : ∀ l', l'.Perm l → Settles (f l') z s) : Settles (Varying.anyOrder l >>= f) z s := by
  intro r
  constructor
  · rintro ⟨_, ⟨l', hperm, rfl⟩, hrest⟩
    exact (h l' hperm r).1 hrest
  · exact fun hr => ⟨.ok l s, ⟨l, .refl l, rfl⟩, (h l (.refl l) r).2 hr⟩

theorem gives_iff (h : Settles x y s) (r : Except ε α) :
    x.Gives s r ↔ r = match y.run s with
      | .ok a _ => .ok a
      | .error e _ => .error e := by
  cases r with
  | ok a =>
    show (∃ s', x s (.ok a s')) ↔ _
    simp only [h _]
    cases y.run s <;> simp
  | error e =>
    show (∃ s', x s (.error e s')) ↔ _
    simp only [h _]
    cases y.run s <;> simp

end Settles

/-! ## Lists and options -/

instance : LawfulMonad (Varying ε σ) := LawfulMonad.mk' _
  (fun x => by
    funext s r
    refine propext ⟨?_, fun hr => ⟨r, hr, ?_⟩⟩
    · rintro ⟨first, hx, hrest⟩
      cases first <;> exact hrest ▸ hx
    · cases r <;> rfl)
  (fun a f => by
    funext s r
    exact propext ⟨fun ⟨_, hfirst, hrest⟩ => by cases hfirst; exact hrest,
      fun hr => ⟨.ok a s, rfl, hr⟩⟩)
  (fun x f g => by
    funext s r
    refine propext ⟨?_, ?_⟩
    · rintro ⟨second, ⟨first, hx, hf⟩, hg⟩
      refine ⟨first, hx, ?_⟩
      cases first with
      | ok a s' => exact ⟨second, hf, hg⟩
      | error e s' =>
        cases hf
        exact hg
    · rintro ⟨first, hx, hrest⟩
      cases first with
      | ok a s' =>
        obtain ⟨second, hf, hg⟩ := hrest
        exact ⟨second, ⟨.ok a s', hx, hf⟩, hg⟩
      | error e s' => exact ⟨.error e s', ⟨.error e s', hx, rfl⟩, hrest⟩)

theorem Settles.mapM {f : α → Varying ε σ β} {g : α → β} {s : σ} {l : List α}
    (h : ∀ a ∈ l, Settles (f a) (pure (g a)) s) : Settles (l.mapM f) (pure (l.map g)) s := by
  induction l with
  | nil =>
    rw [List.mapM_nil]
    exact settles_pure [] s
  | cons a l ih =>
    obtain ⟨ha, hl⟩ := List.forall_mem_cons.1 h
    rw [List.mapM_cons]
    exact ha.pure_bind ((ih hl).pure_bind (settles_pure _ s))

theorem Settles.optionMapM {f : α → Varying ε σ β} {g : α → β} {s : σ}
    (h : ∀ a, Settles (f a) (pure (g a)) s) (o : Option α) :
    Settles (o.mapM f) (pure (o.map g)) s := by
  cases o with
  | none => exact settles_pure none s
  | some a =>
    show Settles (some <$> f a) _ s
    rw [← bind_pure_comp]
    exact (h a).pure_bind (settles_pure _ s)

end Varying

/-! ## Sorting an enumeration -/

section Sorting

variable {κ : Type} [LE κ] [DecidableLE κ]

/-- The elements by a key.  Elements with equal keys stay in the order in which they came. -/
def sortByKey (key : α → κ) (xs : List α) : List α := xs.mergeSort fun a b => key a ≤ key b

/-- A list whose keys grow is what sorting any arrangement of it gives. -/
theorem sortByKey_eq_of_perm [LT κ] [Std.IsLinearOrder κ] [Std.LawfulOrderLT κ] {key : α → κ}
    {xs l : List α} (hperm : xs.Perm l) (hkeys : l.Pairwise fun a b => key a < key b) :
    sortByKey key xs = l := by
  have hsorted : (sortByKey key xs).Pairwise fun a b => decide (key a ≤ key b) = true := by
    refine List.pairwise_mergeSort (fun a b c hab hbc => ?_) (fun a b => ?_) xs
    · exact decide_eq_true (Std.le_trans (of_decide_eq_true hab) (of_decide_eq_true hbc))
    · rw [Bool.or_eq_true, decide_eq_true_iff, decide_eq_true_iff]
      exact Std.le_total
  have hle : l.Pairwise fun a b => decide (key a ≤ key b) = true :=
    hkeys.imp fun h => decide_eq_true (Std.le_of_lt h)
  have hnodup : (l.map key).Nodup := List.pairwise_map.2 (hkeys.imp Std.ne_of_lt)
  have hall : (sortByKey key xs).Perm l := (List.mergeSort_perm xs _).trans hperm
  refine hall.eq_of_pairwise (fun a b ha hb hab hba => ?_) hsorted hle
  exact List.inj_on_of_nodup_map hnodup (hall.mem_iff.1 ha) hb
    (Std.le_antisymm (of_decide_eq_true hab) (of_decide_eq_true hba))

end Sorting

end StructLang
