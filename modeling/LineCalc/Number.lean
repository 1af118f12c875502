import LineCalc.Binary64.Text

/-!
# Results

The result of a line is a binary64 number and a mark that says whether a
division went into it.  The mark decides the layout, so `8 / 2` shows as `4.0`
and `4` as `4`.
-/

namespace LineCalc

/-- The result of a line. -/
structure Number where
  value : Binary64
  real : Bool
  deriving DecidableEq

namespace Number

def layout (n : Number) : Decimal.Layout := if n.real then .real else .integer

/-- The characters of a result as it is shown. -/
def write (n : Number) : List Char := n.value.write n.layout

def display (n : Number) : String := String.ofList n.write

/-- Equality of results: the same mark, and equal as numbers. -/
def numEq (a b : Number) : Bool := a.value.numEq b.value && a.real == b.real

/-- Equality with a bare number, whatever the mark. -/
def valueEq (n : Number) (x : Binary64) : Bool := n.value.numEq x

end Number

end LineCalc
