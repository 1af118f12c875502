import LineCalc.Binary64.Arithmetic

/-!
# Operators

The four operators and what each does to the accumulator and the operand on its
right.  There is no precedence: whoever folds a line applies them in the order
in which they stand.
-/

namespace LineCalc

/-- An operator between two integers of a line. -/
inductive Operator where
  | add
  | sub
  | mul
  | div
  deriving DecidableEq

/-- A fault in applying an operator. -/
inductive ArithmeticError where
  /-- The operator at this position divides by zero. -/
  | divisionByZero (position : Nat)
  deriving DecidableEq

namespace Operator

def all : List Operator := [add, sub, mul, div]

/-- The character that spells an operator. -/
def symbol : Operator → Char
  | add => '+'
  | sub => '-'
  | mul => '*'
  | div => '/'

/-- The operator that a character spells. -/
def ofChar? (c : Char) : Option Operator := all.find? (·.symbol = c)

@[simp] theorem ofChar?_symbol (op : Operator) : ofChar? op.symbol = some op := by
  cases op <;> rfl

theorem symbol_of_ofChar? {c : Char} {op : Operator} (found : ofChar? c = some op) :
    op.symbol = c := by
  simpa using List.find?_some found

/-- What an operator at a position makes of the accumulator and the right
operand.  Division is not rounded to a whole number, and only division by zero,
of either sign, is refused. -/
def apply (op : Operator) (left right : Binary64) (position : Nat) :
    Except ArithmeticError Binary64 :=
  match op with
  | add => .ok (left + right)
  | sub => .ok (left - right)
  | mul => .ok (left * right)
  | div => if right.isZero then .error (.divisionByZero position) else .ok (left / right)

end Operator

end LineCalc
