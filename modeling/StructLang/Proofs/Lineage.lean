import StructLang.Proofs.Tree

/-!
# Lineages

`SymbolTable.lineage` lists a struct and its ancestors on a walk with a bound on its steps.  For a
struct whose ancestors lead to the root the bound is never met: `lineage_of_extends` unfolds a
lineage into the struct and the lineage of its parent, whatever the number of structs is.

A rooted lineage ends with the root (`getLast?_lineage`) and repeats no name (`nodup_lineage`).
-/

namespace StructLang.SymbolTable

variable {t : SymbolTable} {a c n p : String}

theorem mem_lineage_iff : a ∈ t.lineage c ↔ t.Below c a := by
  rw [← isSubtype_iff_below, isSubtype, List.contains_iff_mem]

/-- Steps after the root has been met change nothing. -/
theorem lineageWithin_of_ancestor? (hroot : t.parent? Builtin.root = none) {k steps : Nat}
    (h : t.ancestor? k n = some Builtin.root) (hsteps : k < steps) :
    t.lineageWithin steps n = t.lineageWithin (k + 1) n := by
  induction k generalizing n steps with
  | zero =>
    have hn : n = Builtin.root := by simpa [ancestor?] using h
    subst hn
    cases steps with
    | zero => omega
    | succ steps => simp only [lineageWithin, hroot]
  | succ k ih =>
    cases steps with
    | zero => omega
    | succ steps =>
      obtain ⟨p, hp, hk⟩ := Option.bind_eq_some_iff.1 h
      unfold lineageWithin
      simp only [hp]
      rw [ih hk (by omega)]

theorem lineage_root (hroot : t.parent? Builtin.root = none) :
    t.lineage Builtin.root = [Builtin.root] := by
  unfold lineage lineageWithin
  simp only [hroot]

/-- The lineage of a struct is the struct and the lineage of its parent. -/
theorem lineage_of_extends (hroot : t.parent? Builtin.root = none) (hextends : t.Extends n p)
    (hrooted : t.Rooted p) : t.lineage n = n :: t.lineage p := by
  obtain ⟨k, hk⟩ := below_iff_exists_ancestor?.1 (Relation.ReflTransGen.head hextends hrooted)
  obtain ⟨j, hj, hroot'⟩ := exists_ancestor?_le_size hk
  cases j with
  | zero =>
    have hn : n = Builtin.root := by simpa [ancestor?] using hroot'
    rw [Extends, hn, hroot] at hextends
    cases hextends
  | succ i =>
    have hi : t.ancestor? i p = some Builtin.root := by
      have hbind : (t.parent? n).bind (t.ancestor? i) = some Builtin.root := hroot'
      rwa [hextends] at hbind
    have hwalk : t.lineageWithin (t.structs.size + 1) n = n :: t.lineageWithin t.structs.size p := by
      rw [lineageWithin]
      simp only [show t.parent? n = some p from hextends]
    -- one step fewer is still enough for the parent
    have hshort : t.lineageWithin t.structs.size p = t.lineageWithin (t.structs.size + 1) p := by
      have hmore : i < t.structs.size + 1 := by omega
      rw [lineageWithin_of_ancestor? hroot hi (by omega),
        lineageWithin_of_ancestor? hroot hi hmore]
    show t.lineageWithin (t.structs.size + 1) n = n :: t.lineageWithin (t.structs.size + 1) p
    rw [hwalk, hshort]

theorem getLast?_lineage (hroot : t.parent? Builtin.root = none) (hrooted : t.Rooted n) :
    (t.lineage n).getLast? = some Builtin.root := by
  induction hrooted using Relation.ReflTransGen.head_induction_on with
  | refl => rw [lineage_root hroot]; rfl
  | head hextends hrooted ih =>
    rw [lineage_of_extends hroot hextends hrooted, List.getLast?_cons, ih]
    rfl

theorem nodup_lineage (hroot : t.parent? Builtin.root = none) (hrooted : t.Rooted n) :
    (t.lineage n).Nodup := by
  induction hrooted using Relation.ReflTransGen.head_induction_on with
  | refl => rw [lineage_root hroot]; exact List.nodup_singleton _
  | @head n p hextends hrooted ih =>
    rw [lineage_of_extends hroot hextends hrooted, List.nodup_cons]
    refine ⟨?_, ih⟩
    intro hmem
    have hbelow : t.Below p n := mem_lineage_iff.1 hmem
    exact not_transGen_self hroot (.head hextends hrooted) ((transGen_iff hextends).2 hbelow)

end StructLang.SymbolTable
