import StructLang.CommandLine.Run

/-!
# The program

The command line on the files and the console of the machine.
-/

namespace StructLang.CommandLine

/-- The failure behind an error of the operating system. -/
def fileError : IO.Error → FileError
  | .noFileOrDirectory .. => .notFound
  | .inappropriateType _ 20 _ => .notDirectory
  | .inappropriateType .. => .isDirectory
  | .invalidArgument _ 36 _ => .nameTooLong
  | e => .other (toString e)

/-- The files, the console and the clock of the machine. -/
def machine : Host IO where
  read path := do
    try return .ok (← IO.FS.readFile path) catch e => return .error (fileError e)
  write path contents := do
    try
      IO.FS.writeFile path contents
      return .ok ()
    catch e => return .error (fileError e)
  print := fun text => IO.print text
  complain := fun text => IO.eprint text
  timed compute := do
    let before ← IO.monoMsNow
    let result ← IO.lazyPure compute
    let elapsed := (← IO.monoMsNow) - before
    return (result, Stats.wholeMilliseconds (.ofNat (elapsed / 1000))
      (.ofNat (elapsed % 1000 * 1000000)))

end StructLang.CommandLine

/-- Runs the command that the arguments spell. -/
def main (args : List String) : IO UInt32 :=
  StructLang.CommandLine.run StructLang.CommandLine.machine args
