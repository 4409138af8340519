import StructLang.Position

/-!
# Diagnostics

A diagnostic is what a user sees of a failed analysis: one of nine kinds of fault with the texts
that fill its message, and the place of the token that triggered it.  `Report` is its structured
form in documents.
-/

namespace StructLang

open Json

/-- A fault as it is worded. -/
inductive Fault where
  | undefinedType (name : String)
  | cyclicInheritance (name : String)
  | invalidParent (name parent : String)
  | duplicateDeclaration (what name : String)
  | invalidOverride (method reason : String)
  | missingForm (name form : String)
  | typeMismatch (detail : String)
  | invalidAccess (detail : String)
  | undefinedSymbol (name : String)
  deriving DecidableEq

namespace Fault

/-- The stable code of a kind of fault. -/
def code : Fault → String
  | undefinedType _ => "E0001"
  | cyclicInheritance _ => "E0002"
  | invalidParent _ _ => "E0003"
  | duplicateDeclaration _ _ => "E0004"
  | invalidOverride _ _ => "E0005"
  | missingForm _ _ => "E0006"
  | typeMismatch _ => "E0007"
  | invalidAccess _ => "E0008"
  | undefinedSymbol _ => "E0009"

/-- The wording of a fault. -/
def message : Fault → String
  | undefinedType name => s!"Undefined type: '{name}' is never declared"
  | cyclicInheritance name => s!"Cyclic inheritance: struct '{name}' is its own ancestor"
  | invalidParent name parent => s!"Invalid parent: struct '{name}' cannot inherit from '{parent}'"
  | duplicateDeclaration what name =>
    s!"Duplicate declaration: {what} '{name}' is declared more than once"
  | invalidOverride method reason => s!"Invalid override of method '{method}': {reason}"
  | missingForm name form => s!"Struct '{name}' is missing its {form}"
  | typeMismatch detail => s!"Type mismatch: {detail}"
  | invalidAccess detail => s!"Invalid access: {detail}"
  | undefinedSymbol name => s!"Undefined symbol: {name}"

end Fault

/-- A fault at a place. -/
structure Diagnostic where
  fault : Fault
  position : Position
  deriving DecidableEq

/-! ## Reports -/

/-- A place in a named file. -/
structure Location where
  file : String
  line : UInt32
  column : UInt32
  deriving DecidableEq

/-- A diagnostic in a document. -/
structure Report where
  code : String
  message : String
  /-- Absent for a diagnostic at the origin. -/
  location : Option Location
  deriving DecidableEq

/-- The report of a diagnostic about a file. -/
def Diagnostic.report (d : Diagnostic) (file : String) : Report where
  code := d.fault.code
  message := d.fault.message
  location :=
    if d.position.isOrigin then none else some ⟨file, d.position.line, d.position.column⟩

namespace Location

/-- The location as a record. -/
def toJson (l : Location) : Json :=
  .obj [("file", .str l.file), ("line", .nat l.line.toNat), ("column", .nat l.column.toNat)]

/-- Reads a location record. -/
def decode : Decoder Location :=
  record ["file", "line", "column"] fun budget cells =>
    match cells with
    | [file, line, column] => do
      return ⟨← file.required (Decoder.string budget), ← line.required (Decoder.word32 budget),
        ← column.required (Decoder.word32 budget)⟩
    | _ => none

end Location

namespace Report

/-- The report as a record. -/
def toJson (r : Report) : Json :=
  .obj [("code", .str r.code), ("message", .str r.message),
    ("location", .ofOption Location.toJson r.location)]

/-- Reads a report record. -/
def decode : Decoder Report :=
  record ["code", "message", "location"] fun budget cells =>
    match cells with
    | [code, message, location] => do
      return ⟨← code.required (Decoder.string budget), ← message.required (Decoder.string budget),
        ← location.nullable (Location.decode budget)⟩
    | _ => none

end Report

end StructLang
