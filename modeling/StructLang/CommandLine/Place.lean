/-!
# Places in a file system

A path is followed step by step, and every step leads from one place to another.  A place is
counted from the root or from the working directory.  The names of the directories above the working
directory are not known, so a place above it has a number of levels in their stead.
-/

namespace StructLang

/-- Why a file cannot be read or written. -/
inductive FileError where
  | notFound
  | notDirectory
  | isDirectory
  | nameTooLong
  | other (text : String)

/-- The words of the operating system for a failure. -/
def FileError.text : FileError → String
  | notFound => "No such file or directory (os error 2)"
  | notDirectory => "Not a directory (os error 20)"
  | isDirectory => "Is a directory (os error 21)"
  | nameTooLong => "File name too long (os error 36)"
  | other text => text

/-- Where the steps to a place start. -/
inductive Base where
  /-- The working directory, or the directory so many levels above it. -/
  | above (levels : Nat)
  /-- The root of the file system. -/
  | root
  deriving DecidableEq

/-- A place in the file system: the names that lead to it from its base. -/
structure Place where
  base : Base
  names : List String
  deriving DecidableEq

namespace Place

/-- The number of bytes that a name can have. -/
def longestName : Nat := 255

/-- The place where the steps of a path start. -/
def start (path : String) : Place :=
  if path.startsWith "/" then ⟨.root, []⟩ else ⟨.above 0, []⟩

/-- The directory that holds a place.  The root holds itself. -/
def parent : Place → Place
  | ⟨.above levels, []⟩ => ⟨.above (levels + 1), []⟩
  | ⟨.root, []⟩ => ⟨.root, []⟩
  | ⟨base, names⟩ => ⟨base, names.dropLast⟩

/-- The place that a step of a path leads to. -/
def step (place : Place) (step : String) : Except FileError Place :=
  if step == "." then .ok place
  else if step == ".." then .ok place.parent
  else if step.utf8ByteSize > longestName then .error .nameTooLong
  else .ok ⟨place.base, place.names ++ [step]⟩

/-- Whether a place lies below another one. -/
def isBelow (place top : Place) : Bool :=
  place.base == top.base && top.names.isPrefixOf place.names && place.names != top.names

/-- The device that is empty and forgets what is written to it. -/
def nullDevice : Place := ⟨.root, ["dev", "null"]⟩

/-- The directories that every system has at its root. -/
def systemDirectories : List Place :=
  ["bin", "dev", "etc", "lib", "tmp", "usr", "var"].map fun name => ⟨.root, [name]⟩

end Place

end StructLang
