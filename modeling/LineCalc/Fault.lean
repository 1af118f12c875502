import LineCalc.Token.Basic

/-!
# Faults of a line

A line fails while it is read, at a character that starts no token or at a
token of the wrong kind, or while an operator is applied.  Every fault knows the
position of the character that it is reported at, and `LineError.message` is the
only place that words one.
-/

namespace LineCalc

/-- A fault in reading a line. -/
inductive ReadError where
  /-- A character that is no blank, no digit and no operator. -/
  | invalidCharacter (character : Char) (position : Nat)
  /-- A token of another kind than the grammar asks for. -/
  | unexpectedToken (expected found : Token.Kind) (position : Nat)
  deriving DecidableEq

/-- A fault that ends the evaluation of a line. -/
inductive LineError where
  | read (error : ReadError)
  | arithmetic (error : ArithmeticError)
  deriving DecidableEq

/-- How every message starts. -/
def faultHeading (position : Nat) : String := "Error at position " ++ natText position ++ ": "

namespace ReadError

def position : ReadError → Nat
  | invalidCharacter _ position => position
  | unexpectedToken _ _ position => position

/-- What is wrong, in words.  A character is shown as it is. -/
def message : ReadError → String
  | invalidCharacter c position =>
    faultHeading position ++ "Invalid character '" ++ String.singleton c ++ "'."
  | unexpectedToken expected found position =>
    faultHeading position ++ "Expected " ++ expected.name ++ ", found " ++ found.name ++ "."

end ReadError

namespace ArithmeticError

def position : ArithmeticError → Nat
  | divisionByZero position => position

def message : ArithmeticError → String
  | divisionByZero position => faultHeading position ++ "Division by zero."

end ArithmeticError

namespace LineError

def position : LineError → Nat
  | read error => error.position
  | arithmetic error => error.position

def message : LineError → String
  | read error => error.message
  | arithmetic error => error.message

end LineError

end LineCalc
