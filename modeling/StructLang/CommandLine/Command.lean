/-!
# Commands

The commands that the arguments of a call spell.
-/

namespace StructLang

/-- What to check and what to write. -/
structure CheckOptions where
  /-- The program to check. -/
  input : String
  /-- Where to write the snapshot of the table, if not next to the input. -/
  table : Option String
  /-- Where to write the snapshot of the bodies, if not next to the input. -/
  ast : Option String
  /-- Whether to print the feedback document in place of text. -/
  json : Bool
  /-- Whether to print the layout of every declared struct. -/
  emitLayout : Bool
  deriving DecidableEq

/-- A call of the program. -/
inductive Command where
  | version
  /-- The version on one line. -/
  | versionLine
  | check (options : CheckOptions)
  deriving DecidableEq

namespace Command

/-- Options as far as they have been read. -/
structure Draft where
  input : Option String
  table : Option String
  ast : Option String
  json : Bool
  emitLayout : Bool

/-- The draft before the first argument. -/
def Draft.start : Draft := ⟨none, none, none, false, false⟩

/-- The draft with an input, of which there can be one. -/
def Draft.withInput (d : Draft) (path : String) : Option Draft :=
  if d.input.isSome || path == "" then none else some { d with input := some path }

/-- The draft with a path for the table, of which there can be one. -/
def Draft.withTable (d : Draft) (path : String) : Option Draft :=
  if d.table.isSome || path == "" then none else some { d with table := some path }

/-- The draft with a path for the bodies, of which there can be one. -/
def Draft.withAst (d : Draft) (path : String) : Option Draft :=
  if d.ast.isSome || path == "" then none else some { d with ast := some path }

/-- Whether an argument reads as an option. -/
def isOption (arg : String) : Bool := arg.startsWith "-" && arg != "-"

/-- The value of an option that is written in one argument. -/
def inlineValue? (option arg : String) : Option String :=
  let opening := (option ++ "=").toList
  if opening.isPrefixOf arg.toList then some (String.ofList (arg.toList.drop opening.length))
  else none

/-- The draft after all arguments.  What follows two dashes is no option. -/
def readOptions (d : Draft) : List String → Option Draft
  | [] | ["--"] => some d
  | ["--", path] => d.withInput path
  | "--json" :: rest => if d.json then none else readOptions { d with json := true } rest
  | "--emit-layout" :: rest =>
    if d.emitLayout then none else readOptions { d with emitLayout := true } rest
  | "--table" :: path :: rest =>
    if isOption path then none else (d.withTable path).bind (readOptions · rest)
  | "--ast" :: path :: rest =>
    if isOption path then none else (d.withAst path).bind (readOptions · rest)
  | arg :: rest =>
    match inlineValue? "--table" arg, inlineValue? "--ast" arg with
    | some path, _ => (d.withTable path).bind (readOptions · rest)
    | none, some path => (d.withAst path).bind (readOptions · rest)
    | none, none => if isOption arg then none else (d.withInput arg).bind (readOptions · rest)

/-- The command that arguments spell, if they spell one. -/
def ofArgs? : List String → Option Command
  | ["version"] | ["version", "--"] => some .version
  | "--version" :: _ | "-V" :: _ => some .versionLine
  | "check" :: args => do
    let d ← readOptions .start args
    return .check ⟨← d.input, d.table, d.ast, d.json, d.emitLayout⟩
  | _ => none

end Command

end StructLang
