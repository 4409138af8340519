/-!
# Paths

What a path says by itself, whatever files there are: the steps that it takes, what a file is called
without its extension, and what its neighbour with another name is called.
-/

namespace StructLang.Path

/-- The number of bytes that a path can have. -/
def longest : Nat := 4095

/-- The steps of a path.  Slashes divide them, and several slashes count as one. -/
def steps (path : String) : List String := (path.splitOn "/").filter (· != "")

/-- The last step of a path.  A path without steps stays where it starts. -/
def lastStep (path : String) : String := (steps path).getLast?.getD "."

/-! ## Neighbours -/

/-- The part of a path after its last slash. -/
def fileName (path : String) : String :=
  String.ofList (path.toList.reverse.takeWhile (· != '/')).reverse

/-- The name of a file without its last extension.  A dot at the start of a name starts no
extension. -/
def stem (name : String) : String :=
  match (name.toList.reverse.dropWhile (· != '.')) with
  | [] => name
  | _ :: reversed => if reversed.isEmpty then name else String.ofList reversed.reverse

/-- A reversed path without the slashes at its end and without steps that stay in place. -/
def dropTrailing : List Char → List Char
  | '/' :: rest => dropTrailing rest
  | '.' :: '/' :: rest => dropTrailing rest
  | cs => cs

/-- The directory of a file, as far as the path names it.  Nothing when the path is a name alone. -/
def directory? (path : String) : Option String :=
  match path.toList.reverse.dropWhile (· != '/') with
  | [] => none
  | reversed =>
    match dropTrailing reversed with
    | [] => some ""
    | rest => some (String.ofList rest.reverse)

/-- The path of a file in the same directory. -/
def withFileName (path name : String) : String :=
  match directory? path with
  | none => name
  | some directory => directory ++ "/" ++ name

/-- The path next to an input whose name is the stem of the input with another ending. -/
def sibling (input ending : String) : String :=
  withFileName input (stem (fileName input) ++ ending)

end StructLang.Path
