import LineCalc.Decimal.Shortest
import LineCalc.Text.Digits

/-!
# Layouts of decimals

A decimal is written positionally, with as many zeros as its exponent asks for,
or scientifically, as a digit, a fraction and an exponent.  A layout says which
decimals are written positionally, and how one without a fraction ends.  Two
layouts are in use: the integer layout never shows an exponent and leaves out a
point that nothing follows; the real layout always shows that a number is real,
by a point or by an exponent.
-/

namespace LineCalc

namespace Decimal

/-! ## Parts of a decimal -/

/-- The number of digits before the point; zero or less if zeros follow the
point. -/
def pointPosition (d : Decimal) : Int := (natDigits d.digits).length + d.exponent

/-- How many digits stand after the point in positional writing. -/
def places (d : Decimal) : Nat := (-d.exponent).toNat

/-- All digits of positional writing: zeros for a positive exponent, and zeros
in front so that at least one digit precedes the point. -/
def positionalDigits (d : Decimal) : List Char :=
  let digits := natDigits d.digits ++ List.replicate d.exponent.toNat '0'
  List.replicate (d.places + 1 - digits.length) '0' ++ digits

/-- The digits before the point. -/
def wholeDigits (d : Decimal) : List Char :=
  d.positionalDigits.take (d.positionalDigits.length - d.places)

/-- The digits after the point. -/
def fractionDigits (d : Decimal) : List Char :=
  d.positionalDigits.drop (d.positionalDigits.length - d.places)

theorem wholeDigits_append_fractionDigits (d : Decimal) :
    d.wholeDigits ++ d.fractionDigits = d.positionalDigits :=
  List.take_append_drop _ _

/-! ## Layouts -/

/-- A way of writing decimals. -/
structure Layout where
  /-- What follows the last whole digit if there is no fraction. -/
  wholeEnding : List Char
  /-- Whether a decimal with the point at this position is written
  positionally. -/
  isPositional : Int → Bool

namespace Layout

/-- No exponent, and no point without a fraction. -/
def integer : Layout := ⟨[], fun _ => true⟩

/-- A point or an exponent in every number: positional from `0.0001` to below
`10 ^ 16`. -/
def real : Layout := ⟨['.', '0'], fun position => -3 ≤ position && position ≤ 16⟩

end Layout

/-- A point and the digits after it, or `ending` if there are none. -/
def afterPoint (ending : List Char) : List Char → List Char
  | [] => ending
  | fraction => '.' :: fraction

/-- Positional writing. -/
def positional (ending : List Char) (d : Decimal) : List Char :=
  d.wholeDigits ++ afterPoint ending d.fractionDigits

/-- Scientific writing: one digit before the point, and the exponent it then
has. -/
def scientific (d : Decimal) : List Char :=
  (natDigits d.digits).take 1 ++ afterPoint [] ((natDigits d.digits).drop 1)
    ++ 'e' :: intDigits (d.pointPosition - 1)

/-- A decimal in a layout. -/
def write (layout : Layout) (d : Decimal) : List Char :=
  if layout.isPositional d.pointPosition then d.positional layout.wholeEnding else d.scientific

end Decimal

end LineCalc
