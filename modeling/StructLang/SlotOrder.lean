/-!
# Slot order

Members of a struct are listed by slot, and members with equal slots by name in code point order.
-/

namespace StructLang

/-- Slot order on pairs of a slot and a name: the slot decides, then the name. -/
def slotLe (a b : Nat × String) : Bool :=
  a.1 < b.1 || (a.1 == b.1 && decide (a.2 ≤ b.2))

/-- The elements in slot order.  Elements with equal keys stay in the order in which they came. -/
def sortBySlot (key : α → Nat × String) (xs : List α) : List α :=
  xs.mergeSort fun a b => slotLe (key a) (key b)

end StructLang
