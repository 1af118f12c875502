import LineCalc.Power

/-!
# Binary64 numbers

A finite binary64 number is a sign and a magnitude, and every magnitude is a
whole number of *units* of `2 ^ -1074`, the smallest positive one.  Which whole
numbers occur is a matter of spacing: `gap n` is the distance between
neighbouring magnitudes at `n` units, and a magnitude is a multiple of the gap
at its own place (`Magnitude.onGrid`) below `2 ^ 1024` (`Magnitude.inRange`).

Counting in units keeps the arithmetic in `Nat`: there is no exponent to align
and no separate case for subnormal numbers, whose gap is one unit.  The two
zeros differ in their sign, and there is one NaN.
-/

namespace LineCalc

namespace Binary64

/-! ## Spacing -/

/-- The distance between neighbouring magnitudes at `n` units, so that at most
53 binary digits of `n` are kept. -/
def gap (n : Nat) : Nat := twoPow (n.log2 - 52)

/-- The number of units in `2 ^ 1024`, the least power of two out of range. -/
def limit : Nat := twoPow 2098

/-- How many units make one. -/
def one : Nat := twoPow 1074

theorem gap_pos (n : Nat) : 0 < gap n := twoPow_pos _

theorem limit_pos : 0 < limit := twoPow_pos _

/-- Below `2 ^ 53` units every whole number of units is a magnitude. -/
theorem gap_eq_one {n : Nat} (small : n < twoPow 53) : gap n = 1 := by
  by_cases zero : n = 0
  · subst zero; rfl
  · have : n.log2 < 53 := (log2_lt_iff zero).2 small
    rw [gap, show n.log2 - 52 = 0 by omega]
    rfl

/-- A number holds fewer than `2 ^ 53` of its own gaps. -/
theorem div_gap_lt (n : Nat) : n / gap n < twoPow 53 := by
  by_cases small : n < twoPow 53
  · rwa [gap_eq_one small, Nat.div_one]
  · have positive : n ≠ 0 := by
      rintro rfl
      exact small (twoPow_pos 53)
    have large : 53 ≤ n.log2 := Nat.le_of_not_lt fun lt => small ((log2_lt_iff positive).1 lt)
    rw [Nat.div_lt_iff_lt_mul (gap_pos n), gap, ← twoPow_add,
      show 53 + (n.log2 - 52) = n.log2 + 1 by omega]
    exact lt_twoPow_log2 n

/-- Up to `2 ^ 53`, a whole number times any power of two lies on the grid. -/
theorem gap_dvd_mul_twoPow {m : Nat} (fits : m ≤ twoPow 53) (e : Nat) :
    gap (m * twoPow e) ∣ m * twoPow e := by
  rcases Nat.eq_zero_or_pos m with rfl | positive
  · simp
  · rcases Nat.eq_or_lt_of_le fits with rfl | below
    -- At the bound the product is a power of two with one digit more than fits.
    · rw [← twoPow_add, gap, log2_twoPow]
      exact twoPow_dvd_twoPow (by omega)
    · have product : m * twoPow e < twoPow (53 + e) := by
        rw [twoPow_add]
        exact Nat.mul_lt_mul_of_pos_right below (twoPow_pos e)
      have nonzero : m * twoPow e ≠ 0 := Nat.ne_of_gt (Nat.mul_pos positive (twoPow_pos e))
      have := (log2_lt_iff nonzero).2 product
      exact Nat.dvd_trans (twoPow_dvd_twoPow (by omega)) (Nat.dvd_mul_left _ _)

/-! ## Magnitudes -/

/-- The size of a finite number, as a whole number of units of `2 ^ -1074`. -/
structure Magnitude where
  units : Nat
  /-- The size is below `2 ^ 1024`. -/
  inRange : units < limit
  /-- The size is a multiple of the spacing at its own place. -/
  onGrid : gap units ∣ units
  deriving DecidableEq

namespace Magnitude

/-- No units at all. -/
def zero : Magnitude := ⟨0, limit_pos, Nat.dvd_zero _⟩

theorem ext {a b : Magnitude} (same : a.units = b.units) : a = b := by
  cases a; cases b; simp_all

theorem units_eq_zero_iff {a : Magnitude} : a.units = 0 ↔ a = zero :=
  ⟨fun h => ext h, fun h => h ▸ rfl⟩

/-- The exponent of the gap: a magnitude is `significand * 2 ^ gapExponent`
units. -/
def gapExponent (a : Magnitude) : Nat := a.units.log2 - 52

/-- The magnitude counted in gaps. -/
def significand (a : Magnitude) : Nat := a.units / gap a.units

/-- The number of units with a sign. -/
def signed (negative : Bool) (a : Magnitude) : Int :=
  if negative then -(a.units : Int) else a.units

theorem significand_lt (a : Magnitude) : a.significand < twoPow 53 := div_gap_lt a.units

theorem significand_mul_twoPow (a : Magnitude) :
    a.significand * twoPow a.gapExponent = a.units :=
  Nat.div_mul_cancel a.onGrid

end Magnitude

end Binary64

/-! ## Numbers -/

/-- A binary64 number. -/
inductive Binary64 where
  /-- The result of an operation that has none. -/
  | nan
  | infinite (negative : Bool)
  /-- A finite number; the zeros of both signs are among them. -/
  | finite (negative : Bool) (magnitude : Binary64.Magnitude)
  deriving DecidableEq

namespace Binary64

/-- Zero with a clear sign. -/
def zero : Binary64 := .finite false .zero

/-- Numbers that are neither infinite nor NaN. -/
def isFinite : Binary64 → Bool
  | .finite _ _ => true
  | _ => false

def isNaN : Binary64 → Bool
  | .nan => true
  | _ => false

/-- The zeros of both signs. -/
def isZero : Binary64 → Bool
  | .finite _ m => m.units == 0
  | _ => false

/-- Numeric equality: NaN differs from everything, itself included, and the two
zeros are equal. -/
def numEq : Binary64 → Binary64 → Bool
  | .infinite s, .infinite t => s == t
  | .finite s a, .finite t b => a.units == b.units && (s == t || a.units == 0)
  | _, _ => false

end Binary64

end LineCalc
