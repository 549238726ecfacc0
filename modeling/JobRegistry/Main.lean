import JobRegistry.CommandLine.FileTree
import Std.Time.DateTime.Timestamp

/-!
# The program

Runs the session of the words on the command line: its sources are the standard input and files, its
present is the time of the system.
-/

namespace JobRegistry.CommandLine

/-- The number of a fault of the system, which some of its layers negate. -/
def numberOf? : IO.Error → Option Nat
  | .noFileOrDirectory _ code _ => some (min code.toNat (0 - code).toNat)
  | .permissionDenied _ code _ => some (min code.toNat (0 - code).toNat)
  | .inappropriateType _ code _ => some (min code.toNat (0 - code).toNat)
  | .invalidArgument _ code _ => some (min code.toNat (0 - code).toNat)
  | _ => none

/-- The wording of a fault of the system. -/
def reasonOf (e : IO.Error) : String :=
  match (numberOf? e).bind FileFault.ofNumber? with
  | some fault => fault.message
  | none => toString e

/-- Reads the rest of a stream. -/
partial def readAll (stream : IO.FS.Stream) (before : ByteArray) : IO ByteArray := do
  let bytes ← stream.read 65536
  if bytes.isEmpty then return before else readAll stream (before ++ bytes)

/-- Reads a source. -/
def fetch (source : Source) : IO (Except String String) := do
  try
    match source with
    | .file name => return .ok (← IO.FS.readFile name)
    | .standardInput =>
      match String.fromUTF8? (← readAll (← IO.getStdin) .empty) with
      | some text => return .ok text
      | none => return .error "stream did not contain valid UTF-8"
  catch e => return .error (reasonOf e)

/-- Runs a session. -/
def perform : Session → IO Outcome
  | .done o => return o
  | .read source next => do perform (next (← fetch source))

/-- How the program is called. -/
def usage : String :=
  "\n".intercalate [
    "Derive, validate and project vault records", "",
    "Usage: vault [OPTIONS] <COMMAND>", "",
    "Commands:",
    "  id          Build a record from properties and print its ID and version",
    "  document    Build a record from properties and print its stored document",
    "  validate    Check a stored document against its record's invariants",
    "  dependents  List configurations that depend on a job",
    "  config      Print the effective vault configuration", ""]

end JobRegistry.CommandLine

open JobRegistry JobRegistry.CommandLine

/-- Runs the program. -/
def main (args : List String) : IO UInt32 := do
  match parse args with
  | .help =>
    IO.print usage
    return 0
  | .misuse =>
    IO.eprint usage
    return 2
  | .run invocation =>
    let seconds := (← Std.Time.Timestamp.now).toSecondsSinceUnixEpoch.val
    match Timestamp.ofUnix? seconds with
    | none =>
      IO.eprintln "Error: the time of the system is out of range"
      return 1
    | some now =>
      let outcome ← perform (.ofInvocation now invocation)
      IO.print outcome.output
      IO.eprint outcome.report
      return outcome.code.toUInt32
