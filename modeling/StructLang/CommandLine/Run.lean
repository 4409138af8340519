import StructLang.CommandLine.Command
import StructLang.CommandLine.Directory
import StructLang.CommandLine.Path
import StructLang.Feedback
import StructLang.Program.Document

/-!
# Runs of the command line

What a call reads, prints and writes, in this order:

* the input is read and decoded;
* the program is analysed; a rejected program ends the run with exit code 1;
* the snapshots of the table and of the bodies are written;
* layouts and a summary, or the feedback document, are printed.

A file that cannot be read, decoded or written ends the run with exit code 2.

The run does not fix where files and texts go.  `Host` names what it needs, and `runIn` gives it a
directory in memory.
-/

namespace StructLang.CommandLine

/-- What a run needs from its surroundings. -/
structure Host (m : Type → Type) where
  read : String → m (Except FileError String)
  write : String → String → m (Except FileError Unit)
  /-- Prints a text to the standard output. -/
  print : String → m Unit
  /-- Prints a text to the standard error. -/
  complain : String → m Unit
  /-- Computes a value and says how many milliseconds that took. -/
  timed : {α : Type} → (Unit → α) → m (α × UInt64)

variable {m : Type → Type} [Monad m]

/-- Ends a run for a file that is of no use. -/
def fail (host : Host m) (what : String) : m UInt32 := do
  host.complain s!"Error: {what}\n"
  return 2

/-- Reports a rejected program. -/
def reportRejection (host : Host m) (options : CheckOptions) (e : SemanticError)
    (elapsed : UInt64) : m UInt32 := do
  let d := e.diagnostic
  if options.json then
    host.print ((Feedback.rejected options.input d (.ofFailure elapsed)).text ++ "\n")
  else
    host.complain s!"{options.input}:{d.position.text}: {d.fault.message} [{d.fault.code}]\n"
  return 1

/-- The layouts of all declared structs, with an empty line after each. -/
def layouts (t : SymbolTable) : String :=
  String.join (t.userStructs.map fun s => (DispatchTable.ofStruct s).text ++ "\n")

/-- Prints what is known of an accepted program whose snapshots have been written. -/
def reportAcceptance (host : Host m) (options : CheckOptions) (a : Analysis) (elapsed : UInt64)
    (tablePath astPath : String) : m UInt32 := do
  if options.emitLayout then
    host.print (layouts a.table)
  let stats := Stats.ofAnalysis a elapsed
  if options.json then
    host.print ((Feedback.accepted options.input a stats).text ++ "\n")
  else
    host.print s!"  [✓] {stats.structs.toNat} structs, {stats.bodies.toNat} bodies checked\n"
    host.print s!"  [✓] Wrote {tablePath}\n"
    host.print s!"  [✓] Wrote {astPath}\n"
  return 0

/-- Writes the snapshots of an accepted program and reports. -/
def writeSnapshots (host : Host m) (options : CheckOptions) (a : Analysis) (elapsed : UInt64) :
    m UInt32 := do
  let tablePath := options.table.getD (Path.sibling options.input ".ts.json")
  let astPath := options.ast.getD (Path.sibling options.input ".ast.json")
  match ← host.write tablePath (TableSnapshot.ofTable a.table).text with
  | .error e => fail host s!"writing {tablePath}: {e.text}"
  | .ok () =>
    match ← host.write astPath (AstSnapshot.ofBodies a.bodies).text with
    | .error e => fail host s!"writing {astPath}: {e.text}"
    | .ok () => reportAcceptance host options a elapsed tablePath astPath

/-- Checks a program. -/
def check (host : Host m) (options : CheckOptions) : m UInt32 := do
  match ← host.read options.input with
  | .error e => fail host s!"reading {options.input}: {e.text}"
  | .ok source =>
    match Program.parse? source with
    | none => fail host s!"parsing program in {options.input}: not a program document"
    | some program =>
      unless options.json do
        host.print s!"Checking: {options.input} ({program.items.length} items)\n"
      match ← host.timed fun _ => program.analyze with
      | (.error e, elapsed) => reportRejection host options e elapsed
      | (.ok a, elapsed) => writeSnapshots host options a elapsed

/-- The name and the version of the program. -/
def nameAndVersion : String := "structc 0.1.0"

/-- Runs the command that arguments spell and gives the exit code. -/
def run (host : Host m) (args : List String) : m UInt32 :=
  match Command.ofArgs? args with
  | none => do
    host.complain "usage: structc check <INPUT> [--table PATH] [--ast PATH] [--json] [--emit-layout]\n"
    return 2
  | some .version => do
    host.print s!"{nameAndVersion}\nLicense: Apache-2.0\n"
    return 0
  | some .versionLine => do
    host.print s!"{nameAndVersion}\n"
    return 0
  | some (.check options) => check host options

/-! ## Runs in memory -/

/-- A directory in memory and what has been printed. -/
structure Session where
  directory : Directory
  output : String
  complaints : String

/-- Surroundings in memory, where no time passes. -/
def memoryHost : Host (StateM Session) where
  read path := return (← get).directory.read path
  write path contents := do
    match (← get).directory.write path contents with
    | .error e => return .error e
    | .ok directory =>
      modify fun s => { s with directory := directory }
      return .ok ()
  print text := modify fun s => { s with output := s.output ++ text }
  complain text := modify fun s => { s with complaints := s.complaints ++ text }
  timed compute := return (compute (), 0)

/-- The exit code of a run on a directory in memory, and what the run leaves behind. -/
def runIn (directory : Directory) (args : List String) : UInt32 × Session :=
  (run memoryHost args).run ⟨directory, "", ""⟩

end StructLang.CommandLine
