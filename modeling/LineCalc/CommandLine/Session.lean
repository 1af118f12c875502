import LineCalc.CommandLine.Options
import LineCalc.Evaluation

/-!
# Runs of the program

A run writes to two channels and ends with a status.  With an expression it
shows one result; without one it is a session, which prompts for a line at a
time and runs each as if it were an expression by itself.  A session ends with
its input, at a line that says so, or at a line that is not UTF-8.

`turn` is the whole of what a session does with one line, so an interactive
session and one over a given input differ only in when bytes arrive.
-/

namespace LineCalc

namespace CommandLine

/-! ## What a run writes -/

/-- Text for the two output channels. -/
structure Writing where
  out : String
  err : String
  deriving DecidableEq

namespace Writing

def empty : Writing := ⟨"", ""⟩

/-- One text after another, on each channel. -/
def append (a b : Writing) : Writing := ⟨a.out ++ b.out, a.err ++ b.err⟩

instance : Append Writing := ⟨append⟩

/-- Text of results only. -/
def result (text : String) : Writing := ⟨text, ""⟩

/-- A fault on a line of its own. -/
def fault (message : String) : Writing := ⟨"", message ++ "\n"⟩

end Writing

/-- A finished run: what it wrote and its status. -/
structure Report where
  writing : Writing
  status : Nat
  deriving DecidableEq

/-! ## One line -/

/-- The text that a line is answered with: its result, or one line for each of
its tokens. -/
def answerText (tokens : Bool) (line : List Char) : Except LineError String :=
  if tokens then
    (tokenize line).map fun list => String.join (list.map fun token => token.display ++ "\n")
  else
    (evaluate line).map fun number => number.display ++ "\n"

/-- Runs one line: status 0 with its answer, or status 1 with its fault. -/
def runLine (tokens : Bool) (line : List Char) : Report :=
  match answerText tokens line with
  | .ok text => ⟨.result text, 0⟩
  | .error error => ⟨.fault error.message, 1⟩

/-! ## Lines of bytes -/

/-- The byte that ends a line. -/
def newline : UInt8 := 10

/-- The byte that may stand before the end of a line. -/
def carriageReturn : UInt8 := 13

/-- Bytes cut after each end of a line; the last piece may lack one. -/
def rawLines : List UInt8 → List (List UInt8)
  | [] => []
  | b :: rest =>
    if b = newline then
      [b] :: rawLines rest
    else
      match rawLines rest with
      | [] => [[b]]
      | line :: lines => (b :: line) :: lines

theorem flatten_rawLines (bytes : List UInt8) : (rawLines bytes).flatten = bytes := by
  induction bytes with
  | nil => rfl
  | cons b rest ih =>
    rw [rawLines]
    split
    · simp [ih]
    · split
      next ends => simp_all
      next line lines starts =>
        rw [starts] at ih
        simp_all

/-- A raw line without its end and one carriage return before that. -/
def lineContent (raw : List UInt8) : List UInt8 :=
  if raw.getLast? = some newline then
    if raw.dropLast.getLast? = some carriageReturn then raw.dropLast.dropLast else raw.dropLast
  else
    raw

/-- The characters of bytes in UTF-8. -/
def decode? (bytes : List UInt8) : Option (List Char) :=
  (String.fromUTF8? (ByteArray.mk bytes.toArray)).map String.toList

/-! ## Sessions -/

/-- What a session writes before it reads a line. -/
def prompt : Writing := .result "calc> "

/-- Lines that end a session, once trimmed. -/
def farewells : List (List Char) := [['e', 'x', 'i', 't'], ['q', 'u', 'i', 't']]

/-- What a session does with one line. -/
inductive Turn where
  | next (writing : Writing)
  | stop (report : Report)
  deriving DecidableEq

/-- The report of a session whose input cannot be read. -/
def unreadable : Report :=
  ⟨.fault "Failed to read from stdin: stream did not contain valid UTF-8", 1⟩

/-- What a session does with a raw line.  Trimming serves only to tell empty
lines and farewells. -/
def turn (tokens : Bool) (raw : List UInt8) : Turn :=
  match decode? (lineContent raw) with
  | none => .stop unreadable
  | some line =>
    if trimBlanks line = [] then .next .empty
    else if trimBlanks line ∈ farewells then .stop ⟨.empty, 0⟩
    else .next (runLine tokens line).writing

/-- The report of a session at the end of its input. -/
def endOfSession : Report := ⟨.result "\n", 0⟩

/-- A session over raw lines. -/
def session (tokens : Bool) : List (List UInt8) → Report
  | [] => ⟨prompt ++ endOfSession.writing, endOfSession.status⟩
  | raw :: rest =>
    match turn tokens raw with
    | .stop report => ⟨prompt ++ report.writing, report.status⟩
    | .next writing =>
      let later := session tokens rest
      ⟨prompt ++ writing ++ later.writing, later.status⟩

/-! ## The program -/

def versionText : String := "lexcalc 0.1.0\n"

def helpText : String :=
  "A left-to-right calculator for integer arithmetic expressions.\n" ++
  "\n" ++
  "Usage: lexcalc [OPTIONS] [EXPRESSION]\n" ++
  "\n" ++
  "Arguments:\n" ++
  "  [EXPRESSION]  Expression to evaluate. Without one, lines are read from stdin\n" ++
  "\n" ++
  "Options:\n" ++
  "  -t, --tokens   Print the scanned tokens instead of the result\n" ++
  "  -h, --help     Print help\n" ++
  "  -V, --version  Print version\n"

/-- What arguments come to: a report, or a session that needs the input. -/
inductive Plan where
  | done (report : Report)
  | session (tokens : Bool)
  deriving DecidableEq

/-- The plan for arguments. -/
def plan (arguments : List (List Char)) : Plan :=
  match readRequest arguments with
  | .error error => .done ⟨.fault error.message, 2⟩
  | .ok .help => .done ⟨.result helpText, 0⟩
  | .ok .version => .done ⟨.result versionText, 0⟩
  | .ok (.run tokens (some expression)) => .done (runLine tokens expression)
  | .ok (.run tokens none) => .session tokens

/-- A run of the program with all of its input given. -/
def run (arguments : List (List Char)) (input : List UInt8) : Report :=
  match plan arguments with
  | .done report => report
  | .session tokens => session tokens (rawLines input)

end CommandLine

end LineCalc
