import Lineage.Command.Run
import Lineage.Instant
import Std.Time.DateTime.Timestamp

/-!
# The program

Runs a command line on the files and the clock of the machine. All that is decided is decided
elsewhere; here are only the effects.
-/

namespace Lineage.Program

/-- The error of the operating system with a number. -/
def errorOfCode (code : UInt32) (details : String) : FileError :=
  match code.toNat with
  | 2 => .notFound
  | 13 => .denied
  | 20 => .notDirectory
  | 21 => .isDirectory
  | 36 => .nameTooLong
  | code => .other (FileError.ofSystem details code)

/-- The reason that an operation on files gives for its failure. -/
def reason : IO.Error → FileError
  | .noFileOrDirectory _ code details => errorOfCode code details
  | .permissionDenied _ code details => errorOfCode code details
  | .inappropriateType _ code details => errorOfCode code details
  | .invalidArgument _ code details => errorOfCode code details
  | .illegalOperation code details => errorOfCode code details
  | .resourceExhausted _ code details => errorOfCode code details
  | e => .other (toString e)

/-- The result of an operation on files, or the reason for its failure. -/
def attempt {α : Type} (operation : IO α) : IO (Except FileError α) := do
  try
    return .ok (← operation)
  catch e => return .error (reason e)

/-- Whether there is something at a path. -/
def isThere (path : String) : IO Bool := do
  match ← attempt (IO.FS.realPath path) with
  | .ok _ => return true
  | .error _ => return false

/-- The text of a file. -/
def read (path : String) : IO (Except FileError String) := do
  match ← attempt (IO.FS.readBinFile path) with
  | .error e => return .error e
  | .ok bytes =>
    match String.fromUTF8? bytes with
    | some text => return .ok text
    | none => return .error .notText

/-- The time of the clock. -/
def now : IO String := do
  let nanos := (← Std.Time.Timestamp.now).toNanosecondsSinceUnixEpoch.val
  return (Instant.mk (nanos / 1000000000) (nanos % 1000000000).toNat).toOffsetText

/-- The machine. -/
def machine : Environment IO where
  files := {
    isThere := isThere
    read := read
    write := fun path text => attempt (IO.FS.writeFile path text) }
  now := now

end Lineage.Program

/-- Runs the arguments of the program as a command line. -/
def main (arguments : List String) : IO UInt32 := do
  let outcome ← Lineage.CommandLine.run Lineage.Program.machine arguments
  (← IO.getStderr).putStr outcome.transcript.notes
  (← IO.getStdout).putStr outcome.transcript.results
  return outcome.exitCode.toUInt32
