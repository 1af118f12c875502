import LineCalc.Binary64.Whole
import LineCalc.Decimal.Layout

/-!
# Binary64 numbers as text

A finite number is written as its sign and its shortest decimal in a layout, so
a negative zero keeps its minus.  Infinities and NaN have words of their own in
every layout.
-/

namespace LineCalc

namespace Binary64

/-- A leading minus. -/
def signChars (negative : Bool) : List Char := if negative then ['-'] else []

/-- A number in a layout. -/
def write (layout : Decimal.Layout) : Binary64 → List Char
  | .nan => ['N', 'a', 'N']
  | .infinite s => signChars s ++ ['i', 'n', 'f']
  | .finite s m => signChars s ++ (Decimal.shortest m).write layout

/-- The text of a number in the integer layout. -/
def integerText (x : Binary64) : String := String.ofList (x.write .integer)

/-- The text of a number in the real layout. -/
def realText (x : Binary64) : String := String.ofList (x.write .real)

end Binary64

end LineCalc
