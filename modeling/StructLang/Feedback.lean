import StructLang.Snapshot.Node
import StructLang.Snapshot.Table

/-!
# Feedback

The result of a whole run as one document: whether the program was accepted, the diagnostic when it
was not, some counts, and the snapshots when it was.
-/

namespace StructLang

open Json

/-- Counts of a run. -/
structure Stats where
  /-- The time of the analysis in milliseconds. -/
  milliseconds : UInt64
  /-- The number of declared structs. -/
  structs : UInt64
  /-- The number of checked bodies. -/
  bodies : UInt64
  /-- The number of declared structs that some body creates. -/
  instantiated : UInt64
  deriving DecidableEq

namespace Stats

/-- The whole milliseconds of a duration; the greatest word when there are more. -/
def wholeMilliseconds (seconds : UInt64) (nanoseconds : UInt32) : UInt64 :=
  let exact := seconds.toNat * 1000 + nanoseconds.toNat / 1000000
  if exact < UInt64.size then .ofNat exact else .ofNat (UInt64.size - 1)

/-- The counts of a run that was not accepted. -/
def ofFailure (milliseconds : UInt64) : Stats := ⟨milliseconds, 0, 0, 0⟩

/-- The counts of an accepted program. -/
def ofAnalysis (a : Analysis) (milliseconds : UInt64) : Stats where
  milliseconds := milliseconds
  structs := .ofNat a.table.userStructs.length
  bodies := .ofNat a.bodies.length
  instantiated := .ofNat (a.table.userStructs.countP (·.instantiated))

/-- The counts as a record. -/
def toJson (s : Stats) : Json :=
  .obj [("semantic_time_ms", .nat s.milliseconds.toNat), ("struct_count", .nat s.structs.toNat),
    ("body_count", .nat s.bodies.toNat), ("instantiated_count", .nat s.instantiated.toNat)]

/-- Reads counts. -/
def decode : Decoder Stats :=
  record ["semantic_time_ms", "struct_count", "body_count", "instantiated_count"]
    fun budget cells =>
      match cells with
      | [milliseconds, structs, bodies, instantiated] => do
        return ⟨← milliseconds.required (Decoder.word64 budget),
          ← structs.required (Decoder.word64 budget), ← bodies.required (Decoder.word64 budget),
          ← instantiated.required (Decoder.word64 budget)⟩
      | _ => none

end Stats

/-- The result of a run. -/
structure Feedback where
  success : Bool
  sourceFile : String
  diagnostics : List Report
  stats : Stats
  table : Option TableSnapshot
  ast : Option AstSnapshot

namespace Feedback

/-- The result of a run on an accepted program. -/
def accepted (sourceFile : String) (a : Analysis) (stats : Stats) : Feedback where
  success := true
  sourceFile := sourceFile
  diagnostics := []
  stats := stats
  table := some (.ofTable a.table)
  ast := some (.ofBodies a.bodies)

/-- The result of a run that a diagnostic ended. -/
def rejected (sourceFile : String) (d : Diagnostic) (stats : Stats) : Feedback where
  success := false
  sourceFile := sourceFile
  diagnostics := [d.report sourceFile]
  stats := stats
  table := none
  ast := none

/-- The result as a record.  Snapshots that are absent are left out. -/
def toJson (f : Feedback) : Json :=
  .obj (presentMembers [("success", some (.bool f.success)),
    ("source_file", some (.str f.sourceFile)),
    ("diagnostics", some (.ofList Report.toJson f.diagnostics)),
    ("stats", some f.stats.toJson), ("table", f.table.map TableSnapshot.toJson),
    ("ast", f.ast.map AstSnapshot.toJson)])

/-- The document of a result. -/
def text (f : Feedback) : String := f.toJson.pretty

/-- Reads a result. -/
def decode : Decoder Feedback :=
  record ["success", "source_file", "diagnostics", "stats", "table", "ast"] fun budget cells =>
    match cells with
    | [success, sourceFile, diagnostics, stats, table, ast] => do
      return ⟨← success.required (Decoder.bool budget),
        ← sourceFile.required (Decoder.string budget),
        ← diagnostics.required (Decoder.list Report.decode budget),
        ← stats.required (Stats.decode budget),
        ← table.withDefault none (orNull (TableSnapshot.decode budget)),
        ← ast.withDefault none (orNull (AstSnapshot.decode budget))⟩
    | _ => none

/-- The result that a text holds. -/
def parse? (text : String) : Option Feedback := decodeText decode text

end Feedback

end StructLang
