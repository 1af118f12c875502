import LineCalc.Operator
import LineCalc.Text.Digits

/-!
# Tokens

A token is an integer of any length, an operator or the end of the line.  Its
kind is what is left when the value of an integer is forgotten; the grammar asks
for kinds only.
-/

namespace LineCalc

/-- A classified piece of a line. -/
inductive Token where
  | integer (value : Nat)
  | operator (op : Operator)
  | endOfInput
  deriving DecidableEq

namespace Token

/-- A token without the value of an integer. -/
inductive Kind where
  | integer
  | operator (op : Operator)
  | endOfInput
  deriving DecidableEq

/-- The name of a kind in messages. -/
def Kind.name : Kind → String
  | .integer => "INTEGER"
  | .operator .add => "PLUS"
  | .operator .sub => "MINUS"
  | .operator .mul => "MULTIPLY"
  | .operator .div => "DIVIDE"
  | .endOfInput => "EOF"

def Kind.all : List Kind :=
  [.integer, .operator .add, .operator .sub, .operator .mul, .operator .div, .endOfInput]

def Kind.ofName? (name : String) : Option Kind := Kind.all.find? (·.name = name)

def kind : Token → Kind
  | integer _ => .integer
  | operator op => .operator op
  | endOfInput => .endOfInput

theorem exists_integer_of_kind_eq {token : Token} (integer : token.kind = .integer) :
    ∃ n, token = .integer n := by
  cases token with
  | integer n => exact ⟨n, rfl⟩
  | operator op => cases integer
  | endOfInput => cases integer

/-- The value of an integer. -/
def value? : Token → Option Nat
  | integer n => some n
  | _ => none

/-- The operator that a token is. -/
def operator? : Token → Option Operator
  | operator op => some op
  | _ => none

/-- The character that spells an operator token. -/
def symbol? (token : Token) : Option Char := token.operator?.map Operator.symbol

def isOperator (token : Token) : Bool := token.operator?.isSome

/-- What a token carries, as its display shows it: a value bare, an operator's
symbol in quotes. -/
def payload : Token → String
  | integer n => natText n
  | operator op => "'" ++ String.singleton op.symbol ++ "'"
  | endOfInput => "None"

/-- A token on one line: its kind and what it carries. -/
def display (token : Token) : String :=
  "Token(" ++ token.kind.name ++ ", " ++ token.payload ++ ")"

end Token

end LineCalc
