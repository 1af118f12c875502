import LineCalc.Binary64.Basic

/-!
# The interchange encoding

A binary64 number is exchanged as 64 bits: one for the sign, 11 for the
exponent and 52 for the fraction.  With the sign put aside the code of a finite
number counts the magnitudes below it, so it is the significand added to
`2 ^ 52` times the gap exponent: a significand of `2 ^ 52` or more carries its
leading bit into the exponent field, and a smaller one, whose gap exponent is
zero, leaves that field zero.  The codes from `2047 * 2 ^ 52` on are the
infinity and then the NaNs, which are all read as the one NaN.
-/

namespace LineCalc

namespace Binary64

/-! ## Writing -/

/-- The code of an infinity without its sign. -/
def infinityCode : Nat := 2047 * twoPow 52

/-- The code of NaN that is written. -/
def nanCode : Nat := infinityCode + twoPow 51

/-- The code of a magnitude: how many magnitudes are smaller. -/
def Magnitude.code (m : Magnitude) : Nat := m.gapExponent * twoPow 52 + m.significand

/-- The sign bit in its place. -/
def signCode (negative : Bool) : Nat := if negative then twoPow 63 else 0

/-- The code of a number, below `2 ^ 64`. -/
def code : Binary64 → Nat
  | .nan => nanCode
  | .infinite s => signCode s + infinityCode
  | .finite s m => signCode s + m.code

/-- The 64 bits of a number. -/
def toBits (x : Binary64) : UInt64 := UInt64.ofNat x.code

/-! ## Reading -/

/-- The units of the magnitude with the given exponent field and fraction. -/
def fieldUnits (exponent fraction : Nat) : Nat :=
  if exponent = 0 then fraction else (twoPow 52 + fraction) * twoPow (exponent - 1)

/-- A significand with its leading bit fits in 53 bits. -/
theorem leading_add_lt {fraction : Nat} (small : fraction < twoPow 52) :
    twoPow 52 + fraction < twoPow 53 := by
  rw [show twoPow 53 = twoPow 52 + twoPow 52 from rfl]
  omega

theorem fieldUnits_lt_limit {exponent fraction : Nat} (finite : exponent < 2047)
    (small : fraction < twoPow 52) : fieldUnits exponent fraction < limit := by
  unfold fieldUnits
  split
  · exact Nat.lt_trans small (twoPow_lt_twoPow (by decide))
  · rw [limit, show 2098 = 53 + 2045 from rfl, twoPow_add]
    exact Nat.mul_lt_mul_of_lt_of_le (leading_add_lt small) (twoPow_le_twoPow (by omega))
      (twoPow_pos 2045)

theorem gap_dvd_fieldUnits {exponent fraction : Nat} (small : fraction < twoPow 52) :
    gap (fieldUnits exponent fraction) ∣ fieldUnits exponent fraction := by
  unfold fieldUnits
  split
  · rw [gap_eq_one (Nat.lt_trans small (twoPow_lt_twoPow (by decide)))]
    exact Nat.one_dvd fraction
  · exact gap_dvd_mul_twoPow (Nat.le_of_lt (leading_add_lt small)) _

/-- The number that 64 bits stand for. -/
def ofBits (bits : UInt64) : Binary64 :=
  let negative := decide (twoPow 63 ≤ bits.toNat)
  let exponent := bits.toNat / twoPow 52 % 2048
  let fraction := bits.toNat % twoPow 52
  if finite : exponent < 2047 then
    have small : bits.toNat % twoPow 52 < twoPow 52 := Nat.mod_lt _ (twoPow_pos 52)
    .finite negative
      ⟨fieldUnits exponent fraction, fieldUnits_lt_limit finite small, gap_dvd_fieldUnits small⟩
  else if fraction = 0 then
    .infinite negative
  else
    .nan

end Binary64

end LineCalc
