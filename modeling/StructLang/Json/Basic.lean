/-!
# JSON values

The documents of this library hold naturals, texts, truth values and containers.  Everything else
that JSON can write is kept as one value, `Json.foreign`: no decoder reads it, and a member that no
decoder asks for may hold it.

An object keeps its members in the order of the text and keeps repeated keys, because a decoder has
to tell a key given twice from a key given once.
-/

namespace StructLang

/-- A JSON value. -/
inductive Json where
  | null
  | bool (b : Bool)
  | nat (n : Nat)
  | str (s : String)
  | arr (items : List Json)
  | obj (members : List (String × Json))
  /-- A well-formed value that no document uses: a number that is not a plain natural, a text with
  an unpaired surrogate escape, or an object with such a text as a key. -/
  | foreign
  deriving Inhabited

namespace Json

/-- The given value, or `null` when there is none. -/
def ofOption (encode : α → Json) : Option α → Json
  | none => null
  | some a => encode a

/-- An array of encoded elements. -/
def ofList (encode : α → Json) (xs : List α) : Json :=
  arr (xs.map encode)

/-- The first value that an object gives for a key. -/
def get? (key : String) : Json → Option Json
  | obj members => members.lookup key
  | _ => none

end Json

end StructLang
