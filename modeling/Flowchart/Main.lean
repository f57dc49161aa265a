import Flowchart.Command.Run

/-!
# The program

Runs a command line on the real file system. All that is decided here is how causes reported by the
system are named and where the results of a run are printed.
-/

namespace Flowchart.Command

/-- The number of a system error, which may come negated. -/
def systemCode (code : UInt32) : UInt32 := if code < 0x80000000 then code else 0 - code

/-- The cause for a failed access to a file, given by a number and a description. -/
def causeOfCode (code : UInt32) (details : String) : FileError :=
  match systemCode code with
  | 2 => .notFound
  | 20 => .notFolder
  | 21 => .isFolder
  | n => .other (details ++ " (os error " ++ toString n ++ ")")

/-- The cause for a failed access to a file. -/
def causeOf : IO.Error → FileError
  | .noFileOrDirectory _ code details | .otherError code details => causeOfCode code details
  | .inappropriateType _ code details | .permissionDenied _ code details
  | .invalidArgument _ code details | .resourceExhausted _ code details =>
    causeOfCode code details
  | e => .other (toString e)

/-- Reads a file of the file system. -/
def readText (path : String) : IO (Except FileError String) := do
  try
    match String.fromUTF8? (← IO.FS.readBinFile path) with
    | some text => return .ok text
    | none => return .error (.other "stream did not contain valid UTF-8")
  catch e => return .error (causeOf e)

/-- Access to the files of the file system. A path leads to a folder if reading it says so. -/
instance : FileAccess IO where
  read := readText
  write path text := do
    try
      IO.FS.writeFile path text
      return .ok ()
    catch e => return .error (causeOf e)
  isFolder path := do
    match ← readText path with
    | .error .isFolder => return true
    | _ => return false

end Flowchart.Command

open Flowchart.Command in
/-- Runs the program with the given arguments. -/
def main (args : List String) : IO UInt32 := do
  let outcome ← run args (do (← IO.getStdin).readToEnd)
  IO.print outcome.output
  if outcome.exitCode == 2 then IO.eprint usageText
  if let some failure := outcome.failure then IO.eprintln ("error: " ++ failure.message)
  return outcome.exitCode.toUInt32
