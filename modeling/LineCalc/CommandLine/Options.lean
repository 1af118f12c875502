import LineCalc.Text.Plain

/-!
# Command line arguments

The arguments ask for the version, for help, or for a run with at most one
expression.  They are read in order and the first that settles the matter does:
a request for help or the version is answered, and a usage fault reported,
whatever follows.

A flag is given by its word after two dashes or by its letter after one, and
letters may be joined.  Two dashes alone end the flags.  One dash alone is an
expression.

A fault quotes what it is about as plain text, since its message is meant for a
terminal.
-/

namespace LineCalc

namespace CommandLine

/-! ## Flags -/

/-- A flag of the command line. -/
inductive Flag where
  | tokens
  | help
  | version
  deriving DecidableEq

namespace Flag

def all : List Flag := [tokens, help, version]

def letter : Flag → Char
  | tokens => 't'
  | help => 'h'
  | version => 'V'

def word : Flag → List Char
  | tokens => ['t', 'o', 'k', 'e', 'n', 's']
  | help => ['h', 'e', 'l', 'p']
  | version => ['v', 'e', 'r', 's', 'i', 'o', 'n']

def name (flag : Flag) : List Char := '-' :: '-' :: flag.word

def ofLetter? (c : Char) : Option Flag := all.find? (·.letter = c)

def ofWord? (word : List Char) : Option Flag := all.find? (·.word = word)

end Flag

/-! ## Requests and faults -/

/-- What the arguments ask for. -/
inductive Request where
  | help
  | version
  /-- Run an expression, or the lines of the input if there is none. -/
  | run (tokens : Bool) (expression : Option (List Char))
  deriving DecidableEq

/-- A fault in the arguments. -/
inductive UsageError where
  /-- An unknown flag or a second expression. -/
  | unexpectedArgument (argument : List Char)
  /-- A value given to a flag, none of which takes one. -/
  | unexpectedValue (value : List Char) (flag : Flag)
  /-- A flag given again. -/
  | repeated (flag : Flag)
  deriving DecidableEq

/-- The text between quotes. -/
def quote (text : List Char) : String := "'" ++ String.ofList (plainText text) ++ "'"

def UsageError.message : UsageError → String
  | unexpectedArgument argument => "error: unexpected argument " ++ quote argument ++ " found"
  | unexpectedValue value flag =>
    "error: unexpected value " ++ quote value ++ " for " ++ quote flag.name
      ++ " found; no more were expected"
  | repeated flag => "error: the argument " ++ quote flag.name ++ " cannot be used multiple times"

/-- The end of reading arguments. -/
abbrev Verdict := Except UsageError Request

/-! ## Reading -/

/-- What the arguments read so far have set. -/
structure Settings where
  tokens : Bool
  expression : Option (List Char)
  deriving DecidableEq

namespace Settings

def initial : Settings := ⟨false, none⟩

/-- The request of arguments that are at their end. -/
def request (s : Settings) : Request := .run s.tokens s.expression

/-- Adds a flag, which may be a verdict by itself. -/
def addFlag (s : Settings) : Flag → Except Verdict Settings
  | .tokens => if s.tokens then .error (.error (.repeated .tokens)) else .ok { s with tokens := true }
  | .help => .error (.ok .help)
  | .version => .error (.ok .version)

/-- Adds joined flag letters up to the first unknown one. -/
def addLetters (s : Settings) : List Char → Except Verdict Settings
  | [] => .ok s
  | c :: rest =>
    match Flag.ofLetter? c with
    | none => .error (.error (.unexpectedArgument ['-', c]))
    | some flag =>
      match s.addFlag flag with
      | .error verdict => .error verdict
      | .ok s => s.addLetters rest

/-- Adds what stands after two dashes: a word, and a value after the first
equals sign. -/
def addWord (s : Settings) (body : List Char) : Except Verdict Settings :=
  let word := body.takeWhile (· ≠ '=')
  match Flag.ofWord? word, body.dropWhile (· ≠ '=') with
  | none, _ => .error (.error (.unexpectedArgument ('-' :: '-' :: word)))
  | some flag, [] => s.addFlag flag
  | some flag, _ :: value => .error (.error (.unexpectedValue value flag))

/-- Adds an expression, of which there is at most one. -/
def addExpression (s : Settings) (argument : List Char) : Except Verdict Settings :=
  match s.expression with
  | none => .ok { s with expression := some argument }
  | some _ => .error (.error (.unexpectedArgument argument))

/-- Adds an argument that stands before the end of the flags. -/
def addArgument (s : Settings) : List Char → Except Verdict Settings
  -- A dash alone falls through to the last case.
  | '-' :: '-' :: body => s.addWord body
  | '-' :: c :: rest => s.addLetters (c :: rest)
  | argument => s.addExpression argument

/-- Reads arguments after the end of the flags. -/
def readExpressions (s : Settings) : List (List Char) → Verdict
  | [] => .ok s.request
  | argument :: rest =>
    match s.addExpression argument with
    | .error verdict => verdict
    | .ok s => s.readExpressions rest

/-- Reads arguments. -/
def readArguments (s : Settings) : List (List Char) → Verdict
  | [] => .ok s.request
  | argument :: rest =>
    if argument = ['-', '-'] then
      s.readExpressions rest
    else
      match s.addArgument argument with
      | .error verdict => verdict
      | .ok s => s.readArguments rest

end Settings

/-- What the arguments ask for, or what is wrong with them. -/
def readRequest (arguments : List (List Char)) : Verdict :=
  Settings.initial.readArguments arguments

end CommandLine

end LineCalc
