import StructLang.Json.Reader

/-!
# Decoding documents

A decoder reads a value of a domain type from a JSON value.  It also gets a budget: the number of
containers that may still open on the way down.  Every array and every object that is decoded takes
one from the budget; what is skipped takes nothing.

A record is written as an object, or as an array of its fields in their order.  `fields` brings both
to one shape, a `Cell` per field, and the readers of a cell say what may be left out:

* a required field has to be given;
* a nullable field may be left out of an object, where it counts as `null`, but not of an array;
* a field with a default may be left out of both.

A variant is an object with one member, whose key is the tag.  A variant without contents may also
be the tag alone.
-/

namespace StructLang.Json

/-- A reader of values of type `α`, given how many containers may still open. -/
abbrev Decoder (α : Type) := Nat → Json → Option α

/-- How many containers a document may open one inside the other. -/
def nestingLimit : Nat := 127

/-- The value that a document text holds. -/
def decodeText (decode : Decoder α) (s : String) : Option α :=
  (parse s).bind (decode nestingLimit)

/-! ## Values without fields -/

namespace Decoder

/-- A text. -/
def string : Decoder String
  | _, .str s => some s
  | _, _ => none

/-- A truth value. -/
def bool : Decoder Bool
  | _, .bool b => some b
  | _, _ => none

/-- A natural below `2 ^ 32`. -/
def word32 : Decoder UInt32
  | _, .nat n => if n < UInt32.size then some (UInt32.ofNat n) else none
  | _, _ => none

/-- A natural below `2 ^ 64`. -/
def word64 : Decoder UInt64
  | _, .nat n => if n < UInt64.size then some (UInt64.ofNat n) else none
  | _, _ => none

/-- An array of elements. -/
def list (decode : Decoder α) : Decoder (List α)
  | budget + 1, .arr items => items.mapM (decode budget)
  | _, _ => none

/-- One of the given texts, alone or as the key of an object whose one member is `null`. -/
def tag (ofName? : String → Option α) : Decoder α
  | _, .str s => ofName? s
  | _ + 1, .obj [(s, .null)] => ofName? s
  | _, _ => none

end Decoder

/-- A value or `null`. -/
def orNull (decode : Json → Option α) : Json → Option (Option α)
  | null => some none
  | v => (decode v).map some

/-! ## Records -/

/-- What a record holds for one of its fields. -/
inductive Cell where
  | given (v : Json)
  /-- Not a key of the object. -/
  | omitted
  /-- Past the end of the array. -/
  | cut

/-- The cell of a key in an object. -/
def cellOf (members : List (String × Json)) (key : String) : Cell :=
  match members.lookup key with
  | some v => .given v
  | none => .omitted

/-- The cells of a record with the given field names.  An object may hold other keys, but none of
these twice; an array may be shorter, but not longer. -/
def fields (names : List String) : Json → Option (List Cell)
  | obj members =>
    if names.all fun name => members.countP (·.1 == name) ≤ 1 then
      some (names.map (cellOf members))
    else none
  | arr items =>
    if items.length ≤ names.length then
      some (items.map .given ++ List.replicate (names.length - items.length) .cut)
    else none
  | _ => none

namespace Cell

/-- A field that has to be given. -/
def required (decode : Json → Option α) : Cell → Option α
  | given v => decode v
  | _ => none

/-- A field that is `null` when an object leaves it out. -/
def nullable (decode : Json → Option α) : Cell → Option (Option α)
  | given v => orNull decode v
  | omitted => some none
  | cut => none

/-- A field that takes a default when it is left out. -/
def withDefault (default : α) (decode : Json → Option α) : Cell → Option α
  | given v => decode v
  | _ => some default

end Cell

/-- A record with the given field names, built from its cells. -/
def record (names : List String) (build : Nat → List Cell → Option α) : Decoder α
  | budget + 1, v => (v.fields names).bind (build budget)
  | 0, _ => none

/-! ## Variants -/

/-- The tag and the contents of a variant that is written as an object. -/
def variant? : Json → Option (String × Json)
  | obj [(tag, contents)] => some (tag, contents)
  | _ => none

end StructLang.Json
