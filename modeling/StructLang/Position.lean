import StructLang.Json.Decoder

/-!
# Positions

A line and a column of the source text.  Line and column zero is the origin, where the built-in
declarations stand.
-/

namespace StructLang

open Json

/-- A place in the source text. -/
structure Position where
  line : UInt32
  column : UInt32
  deriving DecidableEq, Inhabited

namespace Position

/-- The place of every built-in declaration. -/
def origin : Position := ⟨0, 0⟩

/-- Whether a position is the origin. -/
def isOrigin (p : Position) : Bool := p.line == 0 && p.column == 0

/-- The text `line:column`. -/
def text (p : Position) : String := toString p.line.toNat ++ ":" ++ toString p.column.toNat

/-- The position as a record. -/
def toJson (p : Position) : Json :=
  .obj [("line", .nat p.line.toNat), ("column", .nat p.column.toNat)]

/-- Reads a position record. -/
def decode : Decoder Position :=
  record ["line", "column"] fun budget cells =>
    match cells with
    | [line, column] => do
      return ⟨← line.required (Decoder.word32 budget), ← column.required (Decoder.word32 budget)⟩
    | _ => none

end Position

end StructLang
