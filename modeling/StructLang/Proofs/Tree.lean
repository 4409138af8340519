import Mathlib.Data.Nat.Find
import Mathlib.Logic.Relation
import StructLang.Proofs.NameMap
import StructLang.SymbolTable.Declare

/-!
# The inheritance relation of a table

`Extends` is the parent relation of a table and `Below` its reflexive and transitive closure.
`isSubtype_iff_below` says that the bounded walk of `SymbolTable.isSubtype` decides `Below`, on
every table: a walk that has not met an ancestor within as many steps as there are structs goes in
circles and never meets it.

* A struct is `Rooted` when its ancestors lead to the root.  A rooted struct is not its own ancestor
  (`not_transGen_self`).
* Where every struct but the root has a registered parent, a struct is rooted or stands above a
  cycle (`rooted_or_cycle`), and the walk with which a declaration looks for cycles tells which
  (`isCyclic_iff_not_rooted`).
-/

namespace StructLang.SymbolTable

variable {t : SymbolTable} {a b c n p q : String}

/-- `p` is the parent of `c`. -/
def Extends (t : SymbolTable) (c p : String) : Prop := t.parent? c = some p

/-- `a` is `c` or one of its ancestors. -/
def Below (t : SymbolTable) : String → String → Prop := Relation.ReflTransGen t.Extends

/-- The ancestors of `n` lead to the root. -/
def Rooted (t : SymbolTable) (n : String) : Prop := t.Below n Builtin.root

theorem Extends.parent_unique (hp : t.Extends c p) (hq : t.Extends c q) : p = q :=
  Option.some.inj (hp.symm.trans hq)

theorem Extends.contains (h : t.Extends c p) : t.contains c = true := by
  rw [Extends, parent?] at h
  obtain ⟨s, hs, _⟩ := Option.bind_eq_some_iff.1 h
  exact NameMap.contains_iff.2 ⟨s, hs⟩

/-- The proper ancestors of a struct are its parent and the ancestors of that. -/
theorem transGen_iff (h : t.Extends c p) : Relation.TransGen t.Extends c a ↔ t.Below p a := by
  rw [Relation.TransGen.head'_iff]
  constructor
  · rintro ⟨q, hq, hbelow⟩
    rwa [h.parent_unique hq]
  · exact fun hbelow => ⟨p, h, hbelow⟩

/-! ## Counting generations -/

/-- The ancestor a number of generations above a struct. -/
def ancestor? (t : SymbolTable) : Nat → String → Option String
  | 0, n => some n
  | k + 1, n => (t.parent? n).bind (t.ancestor? k)

theorem ancestor?_add (i j : Nat) (n : String) :
    t.ancestor? (i + j) n = (t.ancestor? i n).bind (t.ancestor? j) := by
  induction i generalizing n with
  | zero => rw [Nat.zero_add]; rfl
  | succ i ih =>
    rw [Nat.succ_add]
    simp only [ancestor?, Option.bind_assoc]
    congr 1
    funext p
    exact ih p

/-- An ancestor of some generation stands above ancestors of all earlier generations. -/
theorem exists_ancestor? {i j : Nat} (h : t.ancestor? (i + j) n = some a) :
    ∃ b, t.ancestor? i n = some b ∧ t.ancestor? j b = some a := by
  rw [ancestor?_add] at h
  exact Option.bind_eq_some_iff.1 h

theorem below_of_ancestor? {k : Nat} (h : t.ancestor? k c = some a) : t.Below c a := by
  induction k generalizing c with
  | zero =>
    cases h
    exact .refl
  | succ k ih =>
    obtain ⟨p, hp, hk⟩ := Option.bind_eq_some_iff.1 h
    exact Relation.ReflTransGen.head hp (ih hk)

theorem below_iff_exists_ancestor? : t.Below c a ↔ ∃ k, t.ancestor? k c = some a := by
  constructor
  · intro h
    induction h using Relation.ReflTransGen.head_induction_on with
    | refl => exact ⟨0, rfl⟩
    | head hstep _ ih =>
      obtain ⟨k, hk⟩ := ih
      exact ⟨k + 1, Option.bind_eq_some_iff.2 ⟨_, hstep, hk⟩⟩
  · rintro ⟨k, hk⟩
    exact below_of_ancestor? hk

theorem transGen_of_ancestor? {k : Nat} (hk : 0 < k) (h : t.ancestor? k c = some a) :
    Relation.TransGen t.Extends c a := by
  obtain ⟨k, rfl⟩ := Nat.exists_eq_add_of_lt hk
  rw [Nat.zero_add, ancestor?] at h
  obtain ⟨p, hp, hk⟩ := Option.bind_eq_some_iff.1 h
  exact (transGen_iff hp).2 (below_of_ancestor? hk)

theorem contains_of_ancestor? {k : Nat} (hk : 0 < k) (h : t.ancestor? k c = some a) :
    t.contains c = true := by
  obtain ⟨p, hp, _⟩ := Relation.TransGen.head'_iff.1 (transGen_of_ancestor? hk h)
  exact hp.contains

/-! ## The bounded walk -/

theorem mem_lineageWithin {steps : Nat} :
    a ∈ t.lineageWithin steps c ↔ ∃ k < steps, t.ancestor? k c = some a := by
  induction steps generalizing c with
  | zero => simp [lineageWithin]
  | succ steps ih =>
    rw [lineageWithin, List.mem_cons]
    constructor
    · rintro (rfl | h)
      · exact ⟨0, Nat.succ_pos _, rfl⟩
      · cases hp : t.parent? c with
        | none => simp [hp] at h
        | some p =>
          rw [hp] at h
          obtain ⟨k, hk, hk'⟩ := ih.1 h
          exact ⟨k + 1, Nat.succ_lt_succ hk, Option.bind_eq_some_iff.2 ⟨p, hp, hk'⟩⟩
    · rintro ⟨k, hk, h⟩
      cases k with
      | zero =>
        cases h
        exact .inl rfl
      | succ k =>
        obtain ⟨p, hp, hk'⟩ := Option.bind_eq_some_iff.1 h
        rw [hp]
        exact .inr (ih.2 ⟨k, Nat.lt_of_succ_lt_succ hk, hk'⟩)

/-- Generations that are registered and do not repeat are no more than there are structs. -/
theorem generations_le_size {k : Nat}
    (hsome : ∀ i < k, ∃ b, t.ancestor? i n = some b ∧ t.contains b = true)
    (hdistinct : ∀ i < k, ∀ j < k, t.ancestor? i n = t.ancestor? j n → i = j) :
    k ≤ t.structs.size := by
  let path := (List.range k).map fun i => (t.ancestor? i n).getD ""
  have hnodup : path.Nodup := by
    refine List.nodup_range.map_on fun i hi j hj heq => ?_
    rw [List.mem_range] at hi hj
    obtain ⟨b, hb, _⟩ := hsome i hi
    obtain ⟨b', hb', _⟩ := hsome j hj
    rw [hb, hb', Option.getD_some, Option.getD_some] at heq
    exact hdistinct i hi j hj (by rw [hb, hb', heq])
  have hregistered : ∀ name ∈ path, t.structs.contains name = true := by
    intro name hname
    obtain ⟨i, hi, rfl⟩ := List.mem_map.1 hname
    obtain ⟨b, hb, hb'⟩ := hsome i (List.mem_range.1 hi)
    rw [hb]
    exact hb'
  have hlength := NameMap.length_le_size hnodup hregistered
  rwa [List.length_map, List.length_range] at hlength

/-- An ancestor is met within as many steps as there are structs: on the shortest way to it no
struct repeats. -/
theorem exists_ancestor?_le_size {k : Nat} (h : t.ancestor? k c = some a) :
    ∃ j ≤ t.structs.size, t.ancestor? j c = some a := by
  classical
  have hex : ∃ k, t.ancestor? k c = some a := ⟨k, h⟩
  let j := Nat.find hex
  have hj : t.ancestor? j c = some a := Nat.find_spec hex
  have hsome : ∀ i < j, ∃ b, t.ancestor? i c = some b ∧ t.ancestor? (j - i) b = some a := by
    intro i hi
    exact exists_ancestor? (by rwa [Nat.add_sub_cancel' (Nat.le_of_lt hi)])
  -- a repetition would give a shorter way
  have hshort : ∀ x y, y < j → t.ancestor? x c = t.ancestor? y c → ¬ x < y := by
    intro x y hy heq hxy
    obtain ⟨b, hb, hrest⟩ := hsome y hy
    refine Nat.find_min hex (m := x + (j - y)) (by omega) ?_
    rw [ancestor?_add, heq, hb]
    exact hrest
  refine ⟨j, generations_le_size (n := c) (fun i hi => ?_) fun x hx y hy heq => ?_, hj⟩
  · obtain ⟨b, hb, hrest⟩ := hsome i hi
    exact ⟨b, hb, contains_of_ancestor? (Nat.sub_pos_of_lt hi) hrest⟩
  · have h₁ := hshort x y hy heq
    have h₂ := hshort y x hx heq.symm
    omega

/-- The test for subtypes decides whether one struct is an ancestor of another. -/
theorem isSubtype_iff_below : t.isSubtype c a = true ↔ t.Below c a := by
  rw [isSubtype, List.contains_iff_mem, lineage, mem_lineageWithin, below_iff_exists_ancestor?]
  constructor
  · rintro ⟨k, _, hk⟩
    exact ⟨k, hk⟩
  · rintro ⟨k, hk⟩
    obtain ⟨j, hj, hj'⟩ := exists_ancestor?_le_size hk
    exact ⟨j, Nat.lt_succ_of_le hj, hj'⟩

/-! ## Roots and cycles -/

/-- Where the ancestors lead to a root without a parent, no struct is its own ancestor. -/
theorem not_transGen_self (hroot : t.parent? Builtin.root = none) (h : t.Rooted n) :
    ¬ Relation.TransGen t.Extends n n := by
  induction h using Relation.ReflTransGen.head_induction_on with
  | refl =>
    intro hcycle
    obtain ⟨p, hp, _⟩ := Relation.TransGen.head'_iff.1 hcycle
    rw [Extends, hroot] at hp
    cases hp
  | head hstep _ ih =>
    intro hcycle
    exact ih (Relation.TransGen.tail' ((transGen_iff hstep).1 hcycle) hstep)

/-- Where every struct but the root has a registered parent, the ancestors of a struct lead to the
root or into a cycle. -/
theorem rooted_or_cycle
    (hclosed : ∀ n, t.contains n = true → n ≠ Builtin.root →
      ∃ p, t.Extends n p ∧ t.contains p = true)
    (hn : t.contains n = true) :
    t.Rooted n ∨ ∃ a, t.Below n a ∧ Relation.TransGen t.Extends a a := by
  by_cases hrooted : t.Rooted n
  · exact .inl hrooted
  right
  have hsome : ∀ k, ∃ b, t.ancestor? k n = some b ∧ t.contains b = true := by
    intro k
    induction k with
    | zero => exact ⟨n, rfl, hn⟩
    | succ k ih =>
      obtain ⟨b, hb, hregistered⟩ := ih
      have hne : b ≠ Builtin.root := fun heq => hrooted (below_of_ancestor? (heq ▸ hb))
      obtain ⟨p, hp, hp'⟩ := hclosed b hregistered hne
      refine ⟨p, ?_, hp'⟩
      rw [ancestor?_add, hb]
      show (t.parent? b).bind (t.ancestor? 0) = some p
      rw [hp]
      rfl
  -- one generation more than there are structs repeats a struct
  have hrepeat : ∃ i j, i < j ∧ t.ancestor? i n = t.ancestor? j n := by
    by_contra hnone
    push Not at hnone
    have hle : t.structs.size + 1 ≤ t.structs.size := by
      refine generations_le_size (n := n) (fun i _ => hsome i) fun i _ j _ heq => ?_
      rcases Nat.lt_trichotomy i j with hij | hij | hij
      · exact absurd heq (hnone i j hij)
      · exact hij
      · exact absurd heq.symm (hnone j i hij)
    omega
  obtain ⟨i, j, hij, heq⟩ := hrepeat
  obtain ⟨b, hb, _⟩ := hsome i
  refine ⟨b, below_of_ancestor? hb, transGen_of_ancestor? (Nat.sub_pos_of_lt hij) ?_⟩
  have hj : t.ancestor? (i + (j - i)) n = some b := by
    rw [Nat.add_sub_cancel' (Nat.le_of_lt hij), ← heq, hb]
  rwa [ancestor?_add, hb] at hj

/-! ## The walk that looks for a cycle -/

section Walk

variable {steps : Nat} {seen : NameSet}

/-- On the way to the root no name is met again. -/
theorem returnsWithin_of_rooted (hroot : t.parent? Builtin.root = none) (h : t.Rooted n)
    (hseen : ∀ s, seen.contains s = true → Relation.TransGen t.Extends s n) :
    t.returnsWithin steps seen (some n) = false := by
  induction h using Relation.ReflTransGen.head_induction_on generalizing steps seen with
  | refl => cases steps <;> rfl
  | @head m p hstep hrooted ih =>
    cases steps with
    | zero => rfl
    | succ steps =>
      have hnew : ¬ seen.contains m = true := fun hmem =>
        not_transGen_self hroot (Relation.ReflTransGen.head hstep hrooted) (hseen m hmem)
      have hparent : t.parent? m = some p := hstep
      rw [returnsWithin, if_neg hnew, hparent]
      split
      · rfl
      · refine ih fun s hs => ?_
        rw [NameSet.contains_insert, Bool.or_eq_true, decide_eq_true_iff] at hs
        rcases hs with rfl | hs
        · exact .single hstep
        · exact (hseen s hs).tail hstep

/-- A way that does not come to the root comes back to a name that was met: there are not enough
structs for a new one at every step. -/
theorem returnsWithin_of_not_rooted
    (hclosed : ∀ n, t.contains n = true → n ≠ Builtin.root →
      ∃ p, t.Extends n p ∧ (p = Builtin.root ∨ t.contains p = true))
    (hn : t.contains n = true) (h : ¬ t.Rooted n) (path : List String) (hpath : path.Nodup)
    (hseen : ∀ s, seen.contains s = true ↔ s ∈ path)
    (hregistered : ∀ s ∈ path, t.contains s = true)
    (hsteps : t.structs.size < path.length + steps) :
    t.returnsWithin steps seen (some n) = true := by
  induction steps generalizing n seen path with
  | zero =>
    have hle : path.length ≤ t.structs.size := NameMap.length_le_size hpath hregistered
    omega
  | succ steps ih =>
    have hne : n ≠ Builtin.root := fun heq => h (heq ▸ .refl)
    rw [returnsWithin, if_neg hne]
    split
    · rfl
    · next hnew =>
      obtain ⟨p, hp, hregistered'⟩ := hclosed n hn hne
      have hparent : t.parent? n = some p := hp
      have hp' : t.contains p = true :=
        hregistered'.resolve_left fun heq => h (Relation.ReflTransGen.single (heq ▸ hp))
      rw [hparent]
      refine ih hp' (fun hrooted => h (hrooted.head hp)) (n :: path)
        (List.nodup_cons.2 ⟨fun hmem => hnew ((hseen n).2 hmem), hpath⟩) (fun s => ?_)
        (List.forall_mem_cons.2 ⟨hn, hregistered⟩) (by rw [List.length_cons]; omega)
      rw [NameSet.contains_insert, Bool.or_eq_true, decide_eq_true_iff, hseen, List.mem_cons]

/-- The walk looks at the structs only. -/
theorem isCyclic_congr {u : SymbolTable} (h : u.structs = t.structs) (n : String) :
    u.isCyclic n = t.isCyclic n := by
  have hparent (m : String) : u.parent? m = t.parent? m := by
    rw [parent?, struct?, h, parent?, struct?]
  have hwalk (steps : Nat) (seen : NameSet) (next : Option String) :
      u.returnsWithin steps seen next = t.returnsWithin steps seen next := by
    induction steps generalizing seen next with
    | zero => rfl
    | succ steps ih =>
      cases next with
      | none => rfl
      | some m => rw [returnsWithin, returnsWithin, hparent, ih]
  rw [isCyclic, isCyclic, h, hparent, hwalk]

/-- A struct under the root goes in no circle. -/
theorem isCyclic_of_extends_root (h : t.Extends n Builtin.root) : t.isCyclic n = false := by
  have hparent : t.parent? n = some Builtin.root := h
  rw [isCyclic, hparent]
  cases t.structs.size <;> rfl

/-- Where every struct but the root has a registered parent, the walk that looks for a cycle finds one
exactly if it would not come to the root. -/
theorem isCyclic_iff_not_rooted (hroot : t.parent? Builtin.root = none)
    (hclosed : ∀ n, t.contains n = true → n ≠ Builtin.root →
      ∃ p, t.Extends n p ∧ (p = Builtin.root ∨ t.contains p = true))
    (hn : t.contains n = true) (hne : n ≠ Builtin.root) :
    t.isCyclic n = true ↔ ¬ t.Rooted n := by
  obtain ⟨p, hp, hregistered⟩ := hclosed n hn hne
  have hparent : t.parent? n = some p := hp
  have hseen (s : String) : (NameSet.insert .empty n).contains s = true ↔ s ∈ [n] := by
    rw [NameSet.contains_insert, NameMap.contains_empty, Bool.or_false, decide_eq_true_iff,
      List.mem_singleton]
  rw [isCyclic, hparent]
  by_cases h : t.Rooted n
  · have hrooted : t.Rooted p := by
      rcases Relation.ReflTransGen.cases_head_iff.1 h with heq | ⟨q, hq, h⟩
      · exact absurd heq hne
      · rwa [hp.parent_unique hq]
    have hfalse : t.returnsWithin t.structs.size (.insert .empty n) (some p) = false := by
      refine returnsWithin_of_rooted hroot hrooted fun s hs => ?_
      rw [List.mem_singleton.1 ((hseen s).1 hs)]
      exact .single hp
    simp [hfalse, h]
  · have hp' : t.contains p = true :=
      hregistered.resolve_left fun heq => h (Relation.ReflTransGen.single (heq ▸ hp))
    have htrue : t.returnsWithin t.structs.size (.insert .empty n) (some p) = true := by
      refine returnsWithin_of_not_rooted hclosed hp' (fun hrooted => h (hrooted.head hp)) [n]
        (List.nodup_singleton n) hseen (List.forall_mem_singleton.2 hn) ?_
      rw [List.length_singleton]
      omega
    simp [htrue, h]

end Walk

end StructLang.SymbolTable
