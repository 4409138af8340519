import StructLang.CommandLine.Path
import StructLang.CommandLine.Place

/-!
# Directories in memory

A working directory with its files, all held in memory.  A run of the command line on such a
directory is a pure function, with the failures that a file system would report.

Every step of a path is taken in a directory that exists.  Of what lies around the working
directory little is known: there are directories up to the root, the root holds the directories
that every system has, and `/dev/null` is empty and stays empty.
-/

namespace StructLang

/-- A working directory: the files that are known, each with its contents. -/
structure Directory where
  files : List (Place × String)

namespace Directory

/-- Whether there is a directory at a place. -/
def hasDirectory (d : Directory) (place : Place) : Bool :=
  place.names.isEmpty || Place.systemDirectories.contains place ||
    d.files.any fun file => file.1.isBelow place

/-- The directory that a step leads to. -/
def enter (d : Directory) (place : Place) (step : String) : Except FileError Place := do
  let next ← place.step step
  if d.hasDirectory next then return next
  else throw (if (d.files.lookup next).isSome then .notDirectory else .notFound)

/-- The directory in which the last step of a path is taken. -/
def lead (d : Directory) (path : String) : Except FileError Place :=
  if path.isEmpty then .error .notFound
  else if path.utf8ByteSize > Path.longest then .error .nameTooLong
  else (Path.steps path).dropLast.foldlM d.enter (Place.start path)

/-- The contents of a file.  A slash at the end of a path asks for a directory. -/
def read (d : Directory) (path : String) : Except FileError String := do
  let place ← (← d.lead path).step (Path.lastStep path)
  match d.files.lookup place with
  | some contents => if path.endsWith "/" then throw .notDirectory else return contents
  | none => throw (if d.hasDirectory place then .isDirectory else .notFound)

/-- The directory with new contents at a place. -/
def put (d : Directory) (place : Place) (contents : String) : Directory :=
  if place == Place.nullDevice then d
  else ⟨d.files.filter (·.1 != place) ++ [(place, contents)]⟩

/-- The directory with a file written.  A slash at the end of a path asks for a directory, whatever
the last step leads to. -/
def write (d : Directory) (path contents : String) : Except FileError Directory := do
  let holder ← d.lead path
  if path.endsWith "/" then throw .isDirectory
  let place ← holder.step (Path.lastStep path)
  if d.hasDirectory place then throw .isDirectory
  return d.put place contents

/-- The files in the working directory that are new or changed since an earlier state, with their
paths. -/
def changesSince (d before : Directory) : List (String × String) :=
  (d.files.filter fun file =>
    file.1.base == .above 0 && before.files.lookup file.1 != some file.2).map
      fun file => ("/".intercalate file.1.names, file.2)

/-- The directory with files at the given paths, which start in it. -/
def ofFiles (files : List (String × String)) : Directory :=
  ⟨(Place.nullDevice, "") :: files.map fun (path, contents) =>
    (⟨.above 0, (Path.steps path).filter (· != ".")⟩, contents)⟩

end Directory

end StructLang
