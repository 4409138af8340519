import Mathlib.Data.List.Nodup
import StructLang.Layout
import StructLang.Proofs.Listing

/-!
# The order of a dispatch table

A dispatch table is made of members that come in any order, and from a document they may come with
slots and names that are repeated.  The table separates the static methods from the others and puts
every group in slot order.

* `Precedes` is the order of slots, and of the code points of names where slots are equal.  It is
  what `slotLe` decides (`slotLe_iff_precedes`).
* `SlotSorted key xs ys` says that `ys` is `xs` in this order, and that entries with equal keys have
  not changed places.  `slotSorted_sortBySlot` is the statement about sorting, and
  `SlotSorted.eq_of_perm` says that without equal keys the arrangement of `xs` does not matter.
* `partition_ofMembers` puts the three groups together.
-/

namespace StructLang

/-! ## The order -/

/-- The code points of a text. -/
def codePoints (s : String) : List Nat := s.toList.map Char.toNat

/-- A slot and a name stand before others, or are the same: the slot decides, then the first code
point in which the names differ. -/
def Precedes (a b : UInt64 × String) : Prop :=
  a.1 < b.1 ∨ a.1 = b.1 ∧ (List.Lex (· < ·) (codePoints a.2) (codePoints b.2) ∨ a.2 = b.2)

theorem lex_codePoints_iff {as bs : List Char} :
    List.Lex (· < ·) (as.map Char.toNat) (bs.map Char.toNat) ↔ as < bs := by
  rw [← List.lex_lt]
  induction as generalizing bs with
  | nil =>
    cases bs with
    | nil => simp
    | cons b bs => exact iff_of_true .nil .nil
  | cons a as ih =>
    cases bs with
    | nil => simp
    | cons b bs =>
      rw [List.map_cons, List.map_cons, List.cons_lex_cons_iff, List.cons_lex_cons_iff, ih,
        Char.toNat_inj]
      exact Iff.rfl

theorem codePoints_le_iff {a b : String} :
    List.Lex (· < ·) (codePoints a) (codePoints b) ∨ a = b ↔ a ≤ b := by
  unfold codePoints
  rw [lex_codePoints_iff, ← String.lt_iff, Std.le_iff_lt_or_eq]

theorem slotLe_iff_precedes {a b : UInt64 × String} :
    slotLe (a.1.toNat, a.2) (b.1.toNat, b.2) = true ↔ Precedes a b := by
  rw [slotLe_iff, Precedes, codePoints_le_iff, UInt64.lt_iff_toNat_lt, ← UInt64.toNat_inj]

theorem Precedes.antisymm {a b : UInt64 × String} (hab : Precedes a b) (hba : Precedes b a) :
    a = b := by
  rw [Precedes, codePoints_le_iff] at hab hba
  have hslot : a.1 = b.1 := by
    rw [UInt64.lt_iff_toNat_lt, ← UInt64.toNat_inj] at hab hba
    rw [← UInt64.toNat_inj]
    omega
  have hname : a.2 = b.2 := by
    rcases hab with hab | hab
    · rw [hslot] at hab
      exact absurd hab (UInt64.lt_irrefl _)
    · rcases hba with hba | hba
      · rw [hslot] at hba
        exact absurd hba (UInt64.lt_irrefl _)
      · exact String.le_antisymm hab.2 hba.2
  exact Prod.ext hslot hname

/-! ## Sorting -/

section Sorting

variable {α : Type} {key : α → UInt64 × String} {xs xs' ys ys' : List α}

/-- The list `ys` is `xs` in slot order, and entries with equal keys are in the order in which they
came. -/
structure SlotSorted (key : α → UInt64 × String) (xs ys : List α) : Prop where
  perm : ys.Perm xs
  sorted : ys.Pairwise fun a b => Precedes (key a) (key b)
  stable : ∀ k, ys.filter (key · = k) = xs.filter (key · = k)

/-- Entries with equal keys form a sorted part of the list, which sorting keeps in one piece. -/
theorem filter_sortBySlot (key : α → Nat × String) (xs : List α) (k : Nat × String) :
    (sortBySlot key xs).filter (key · = k) = xs.filter (key · = k) := by
  have hequal : (xs.filter (key · = k)).Pairwise fun a b => slotLe (key a) (key b) = true := by
    refine List.pairwise_of_forall_mem_list fun a ha b hb => ?_
    rw [of_decide_eq_true (List.mem_filter.1 ha).2, of_decide_eq_true (List.mem_filter.1 hb).2]
    exact slotLe_iff.2 (.inr ⟨rfl, String.le_refl _⟩)
  have hsublist : (xs.filter (key · = k)).Sublist (sortBySlot key xs) :=
    List.sublist_mergeSort (fun a b c => slotLe_trans (key a) (key b) (key c))
      (fun a b => slotLe_total (key a) (key b)) hequal List.filter_sublist
  have hkept := hsublist.filter (key · = k)
  rw [List.filter_filter] at hkept
  simp only [Bool.and_self] at hkept
  exact (hkept.eq_of_length ((sortBySlot_perm key xs).filter _).length_eq.symm).symm

theorem slotSorted_sortBySlot (key : α → UInt64 × String) (xs : List α) :
    SlotSorted key xs (sortBySlot (fun a => ((key a).1.toNat, (key a).2)) xs) where
  perm := sortBySlot_perm _ xs
  sorted := by
    apply (pairwise_sortBySlot _ xs).imp
    intro a b hle
    exact slotLe_iff_precedes.1 hle
  stable k := by
    have hkey (a : α) : ((key a).1.toNat, (key a).2) = (k.1.toNat, k.2) ↔ key a = k := by
      rw [Prod.mk.injEq, UInt64.toNat_inj, Prod.ext_iff]
    have hfilter := filter_sortBySlot (fun a => ((key a).1.toNat, (key a).2)) xs (k.1.toNat, k.2)
    simpa only [hkey] using hfilter

/-- Where no two entries have equal keys, the order in which they come does not matter. -/
theorem SlotSorted.eq_of_perm (h : SlotSorted key xs ys) (h' : SlotSorted key xs' ys')
    (hperm : xs'.Perm xs) (hdistinct : (xs.map key).Nodup) : ys' = ys := by
  have hall : ys'.Perm ys := h'.perm.trans (hperm.trans h.perm.symm)
  refine hall.eq_of_pairwise (fun a b ha hb hab hba => ?_) h'.sorted h.sorted
  have hmem : a ∈ xs := h.perm.mem_iff.1 (hall.mem_iff.1 ha)
  exact List.inj_on_of_nodup_map hdistinct hmem (h.perm.mem_iff.1 hb) (hab.antisymm hba)

end Sorting

/-! ## Dispatch tables -/

/-- What the order of methods depends on. -/
def MethodSlot.key (s : MethodSlot) : UInt64 × String := (s.slot, s.method)

/-- What the order of attributes depends on. -/
def AttributeSlot.key (s : AttributeSlot) : UInt64 × String := (s.slot, s.name)

namespace DispatchTable

variable {methods methods' : List (MethodSlot × Bool)} {attributes attributes' : List AttributeSlot}

/-- The methods with a given mark, in the order in which they come. -/
def marked (isStatic : Bool) (methods : List (MethodSlot × Bool)) : List MethodSlot :=
  (methods.filter (·.2 = isStatic)).map (·.1)

/-- The table holds the given members: the methods that are not static, the static ones and the
attributes, each group in slot order. -/
structure Partition (entries : List (MethodSlot × Bool)) (slots : List AttributeSlot)
    (d : DispatchTable) : Prop where
  methods : SlotSorted MethodSlot.key (marked false entries) d.methods
  staticMethods : SlotSorted MethodSlot.key (marked true entries) d.staticMethods
  attributes : SlotSorted AttributeSlot.key slots d.attributes

/-- No two members of a group have one slot and one name. -/
structure Distinct (entries : List (MethodSlot × Bool)) (slots : List AttributeSlot) : Prop where
  methods : ((marked false entries).map MethodSlot.key).Nodup
  staticMethods : ((marked true entries).map MethodSlot.key).Nodup
  attributes : (slots.map AttributeSlot.key).Nodup

theorem perm_marked (hperm : methods'.Perm methods) (isStatic : Bool) :
    (marked isStatic methods').Perm (marked isStatic methods) :=
  (hperm.filter _).map _

theorem partition_ofMembers (structName : String) (parent : Option String) (hasConstructor : Bool)
    (methods : List (MethodSlot × Bool)) (attributes : List AttributeSlot) :
    Partition methods attributes
      (ofMembers structName parent hasConstructor methods attributes) := by
  have hmarked (isStatic : Bool) :
      SlotSorted MethodSlot.key (marked isStatic methods) (sortMethods (marked isStatic methods)) :=
    slotSorted_sortBySlot MethodSlot.key (marked isStatic methods)
  have hfilter {isStatic : Bool} {keep : MethodSlot × Bool → Bool}
      (hkeep : ∀ e, keep e = decide (e.2 = isStatic)) :
      (methods.filter keep).map (·.1) = marked isStatic methods := by
    rw [funext hkeep]
    rfl
  have hfalse : (methods.filter (!·.2)).map (·.1) = marked false methods :=
    hfilter fun e => by cases e.2 <;> rfl
  have htrue : (methods.filter (·.2)).map (·.1) = marked true methods :=
    hfilter fun e => by cases e.2 <;> rfl
  unfold ofMembers
  rw [hfalse, htrue]
  exact ⟨hmarked false, hmarked true, slotSorted_sortBySlot AttributeSlot.key attributes⟩

theorem ofMembers_eq_of_perm (structName : String) (parent : Option String) (hasConstructor : Bool)
    (hmethods : methods'.Perm methods) (hattributes : attributes'.Perm attributes)
    (hdistinct : Distinct methods attributes) :
    ofMembers structName parent hasConstructor methods' attributes' =
      ofMembers structName parent hasConstructor methods attributes := by
  have h := partition_ofMembers structName parent hasConstructor methods attributes
  have h' := partition_ofMembers structName parent hasConstructor methods' attributes'
  have heq := h.methods.eq_of_perm h'.methods (perm_marked hmethods false) hdistinct.methods
  have hstatic := h.staticMethods.eq_of_perm h'.staticMethods (perm_marked hmethods true)
    hdistinct.staticMethods
  have hslots := h.attributes.eq_of_perm h'.attributes hattributes hdistinct.attributes
  unfold ofMembers at heq hstatic hslots ⊢
  rw [mk.injEq]
  exact ⟨rfl, rfl, rfl, heq, hstatic, hslots⟩

/-- The members of a dispatch table are those that it is made of, the static methods apart, in slot
order and with equal entries as they came.  So where no two members of a group have one slot and one
name, the table does not depend on the order of the members. -/
theorem stable_ofMembers (structName : String) (parent : Option String) (hasConstructor : Bool)
    (methods : List (MethodSlot × Bool)) (attributes : List AttributeSlot) :
    Partition methods attributes
        (ofMembers structName parent hasConstructor methods attributes) ∧
      ∀ methods' attributes', methods'.Perm methods → attributes'.Perm attributes →
        Distinct methods attributes →
        ofMembers structName parent hasConstructor methods' attributes' =
          ofMembers structName parent hasConstructor methods attributes :=
  ⟨partition_ofMembers structName parent hasConstructor methods attributes,
    fun _ _ => ofMembers_eq_of_perm structName parent hasConstructor⟩

/-- Methods and attributes that come in the wrong order, with one slot twice. -/
theorem stable_ofMembers_reverse :
    let methods : List (MethodSlot × Bool) :=
      [(⟨2, "h", "B"⟩, false), (⟨1, "make", "A"⟩, true), (⟨0, "g", "A"⟩, false),
        (⟨0, "f", "A"⟩, false)]
    let attributes : List AttributeSlot := [⟨1, "y", "Int", "B"⟩, ⟨0, "x", "Int", "A"⟩]
    Distinct methods attributes ∧
      Partition methods attributes (ofMembers "B" (some "A") true methods attributes) ∧
      ofMembers "B" (some "A") true methods.reverse attributes.reverse =
        ofMembers "B" (some "A") true methods attributes := by
  intro methods attributes
  have hdistinct : Distinct methods attributes := ⟨by decide, by decide, by decide⟩
  obtain ⟨hpartition, hperm⟩ := stable_ofMembers "B" (some "A") true methods attributes
  exact ⟨hdistinct, hpartition,
    hperm _ _ methods.reverse_perm attributes.reverse_perm hdistinct⟩

end DispatchTable

end StructLang
