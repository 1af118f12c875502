import LineCalc.CommandLine.Session

/-!
# The program

The outer layer: it hands arguments and lines of bytes to the pure part and
writes what that answers.
-/

namespace LineCalc

namespace CommandLine

/-- Writes to both channels at once. -/
def emit (writing : Writing) : IO Unit := do
  let out ← IO.getStdout
  out.putStr writing.out
  out.flush
  let err ← IO.getStderr
  err.putStr writing.err
  err.flush

/-- Reads bytes up to the end of a line, or of the input. -/
partial def readRawLine (input : IO.FS.Stream) (seen : List UInt8) : IO (List UInt8) := do
  let bytes ← input.read 1
  match bytes.toList with
  | [] => return seen.reverse
  | read =>
    let seen := read.reverse ++ seen
    if read.getLast? = some newline then return seen.reverse else readRawLine input seen

/-- Prompts, reads a line and takes a turn until a turn stops the session. -/
partial def converse (input : IO.FS.Stream) (tokens : Bool) : IO Nat := do
  emit prompt
  match ← readRawLine input [] with
  | [] =>
    emit endOfSession.writing
    return endOfSession.status
  | raw =>
    match turn tokens raw with
    | .stop report =>
      emit report.writing
      return report.status
    | .next writing =>
      emit writing
      converse input tokens

/-- Carries out the plan for arguments. -/
def execute (arguments : List String) : IO UInt32 := do
  match plan (arguments.map String.toList) with
  | .done report =>
    emit report.writing
    return report.status.toUInt32
  | .session tokens =>
    let status ← converse (← IO.getStdin) tokens
    return status.toUInt32

end CommandLine

end LineCalc

/-- Runs the program. -/
def main (arguments : List String) : IO UInt32 := LineCalc.CommandLine.execute arguments
