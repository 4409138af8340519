import Mathlib.Data.List.Nodup
import StructLang.Json.Decoder
import StructLang.Proofs.JsonText

/-!
# Decoders that read what an encoder writes

`Inverts decode encode need` says that `decode` reads back what `encode` writes wherever at least
`need` containers may still open.  A text, a number and a tag need none, and a list needs one more
than its elements.

A record is written as an object with one member per field.  `record_obj` gives its decoder the
values of the members in the order of the fields, so what is left to show of a record is that every
field is read back (`Inverts.record`).
-/

namespace StructLang.Json

variable {α : Type}

/-- Where `need` containers may open, `decode` reads what `encode` writes. -/
def Inverts (decode : Decoder α) (encode : α → Json) (need : Nat) : Prop :=
  ∀ (a : α) (budget : Nat), need ≤ budget → decode budget (encode a) = some a

section Values

variable {decode : Decoder α} {encode : α → Json} {need : Nat}

theorem inverts_string : Inverts Decoder.string .str 0 := fun _ _ _ => rfl

theorem inverts_word32 : Inverts Decoder.word32 (fun n => .nat n.toNat) 0 := by
  intro n budget _
  unfold Decoder.word32
  dsimp only
  rw [if_pos n.toNat_lt_size, UInt32.ofNat_toNat]

theorem inverts_word64 : Inverts Decoder.word64 (fun n => .nat n.toNat) 0 := by
  intro n budget _
  unfold Decoder.word64
  dsimp only
  rw [if_pos n.toNat_lt_size, UInt64.ofNat_toNat]

theorem inverts_tag {ofName? : String → Option α} {name : α → String}
    (h : ∀ a, ofName? (name a) = some a) : Inverts (.tag ofName?) (fun a => .str (name a)) 0 :=
  fun a _ _ => h a

theorem Inverts.list (h : Inverts decode encode need) :
    Inverts (.list decode) (.ofList encode) (need + 1) := by
  intro xs budget hbudget
  cases budget with
  | zero => omega
  | succ budget =>
    show (xs.map encode).mapM (decode budget) = some xs
    induction xs with
    | nil => rfl
    | cons x xs ih =>
      rw [List.map_cons, List.mapM_cons, h x budget (by omega), ih]
      rfl

theorem orNull_of_ne_null {read : Json → Option α} {v : Json} (h : v ≠ .null) :
    orNull read v = (read v).map some := by
  unfold orNull
  split
  · exact absurd rfl h
  · rfl

/-- A value that may be missing is read back, since no value that is there is written as `null`. -/
theorem Inverts.orNull (h : Inverts decode encode need) (hnull : ∀ a, encode a ≠ .null)
    (o : Option α) {budget : Nat} (hbudget : need ≤ budget) :
    orNull (decode budget) (.ofOption encode o) = some o := by
  cases o with
  | none => rfl
  | some a =>
    show Json.orNull (decode budget) (encode a) = _
    rw [orNull_of_ne_null (hnull a), h a budget hbudget, Option.map_some]

end Values

/-! ## Records -/

theorem cellOf_of_mem {members : List (String × Json)} (hnodup : (members.map Prod.fst).Nodup)
    {m : String × Json} (hm : m ∈ members) : cellOf members m.1 = .given m.2 := by
  have hlookup : members.lookup m.1 = some m.2 := by
    induction members with
    | nil => cases hm
    | cons e members ih =>
      rw [List.map_cons, List.nodup_cons] at hnodup
      rcases List.mem_cons.1 hm with rfl | hm
      · rw [List.lookup_cons, beq_self_eq_true]
      · have hne : (m.1 == e.1) = false := by
          rw [beq_eq_false_iff_ne]
          intro heq
          exact hnodup.1 (heq ▸ List.mem_map_of_mem hm)
        rw [List.lookup_cons, hne]
        exact ih hnodup.2 hm
  unfold cellOf
  rw [hlookup]

/-- An object whose keys are distinct has no key twice. -/
theorem all_countP_le_one {members : List (String × Json)} (hnodup : (members.map Prod.fst).Nodup)
    (names : List String) : (names.all fun name => members.countP (·.1 == name) ≤ 1) = true := by
  rw [List.all_eq_true]
  intro name _
  rw [decide_eq_true_iff]
  have hcount := List.nodup_iff_count_le_one.1 hnodup name
  rw [List.count, List.countP_map] at hcount
  exact hcount

/-- A record with one member per field is read from the values of its members. -/
theorem record_obj {names : List String} {members : List (String × Json)}
    (hnodup : names.Nodup) (hnames : members.map Prod.fst = names)
    (build : Nat → List Cell → Option α) (budget : Nat) :
    record names build (budget + 1) (.obj members) =
      build budget (members.map fun m => .given m.2) := by
  subst hnames
  have hcells : (members.map Prod.fst).map (cellOf members) = members.map fun m => .given m.2 := by
    rw [List.map_map]
    exact List.map_congr_left fun m hm => cellOf_of_mem hnodup hm
  show (fields _ (.obj members)).bind (build budget) = _
  rw [fields, if_pos (all_countP_le_one hnodup _), Option.bind_some, hcells]

/-- A record is read back if its fields are. -/
theorem Inverts.record {names : List String} {build : Nat → List Cell → Option α}
    {members : α → List (String × Json)} {need : Nat} (hnodup : names.Nodup)
    (hnames : ∀ a, (members a).map Prod.fst = names)
    (hbuild : ∀ a budget, need ≤ budget →
      build budget ((members a).map fun m => .given m.2) = some a) :
    Inverts (record names build) (fun a => .obj (members a)) (need + 1) := by
  intro a budget hbudget
  cases budget with
  | zero => omega
  | succ budget =>
    rw [record_obj hnodup (hnames a)]
    exact hbuild a budget (by omega)

/-- A document of enough room is read back from its text. -/
theorem Inverts.decodeText_pretty {decode : Decoder α} {encode : α → Json} {need : Nat}
    (h : Inverts decode encode need) (hneed : need ≤ nestingLimit) (a : α) :
    decodeText decode (encode a).pretty = some a := by
  unfold decodeText
  rw [parse_pretty, Option.bind_some, h a nestingLimit hneed]

end StructLang.Json
