import LineCalc.Binary64.Basic

/-!
# Rounding to binary64

An exact non-negative result is a quotient `num / den` of units.  It is rounded
to the nearest magnitude, and half way between two of them to the one with the
even significand.  The gap is chosen at the whole part of the quotient; a
result that rounds up to the next power of two is still on the grid
(`gap_dvd_roundUnits`), so there is no second normalisation.

A quotient that rounds to `2 ^ 1024` or more becomes an infinity, hence the
bound is half a gap above the largest finite number.
-/

namespace LineCalc

namespace Binary64

/-! ## Nearest whole number -/

/-- The whole number nearest to `num / den`, the even one of two equally near. -/
def roundDiv (num den : Nat) : Nat :=
  if 2 * (num % den) < den ∨ 2 * (num % den) = den ∧ num / den % 2 = 0 then
    num / den
  else
    num / den + 1

theorem roundDiv_le (num den : Nat) : roundDiv num den ≤ num / den + 1 := by
  unfold roundDiv
  split <;> omega

theorem le_roundDiv (num den : Nat) : num / den ≤ roundDiv num den := by
  unfold roundDiv
  split <;> omega

/-- A whole quotient is its own rounding. -/
theorem roundDiv_mul_left {den : Nat} (positive : 0 < den) (n : Nat) :
    roundDiv (den * n) den = n := by
  simp [roundDiv, Nat.mul_div_cancel_left n positive, positive]

/-! ## Nearest magnitude -/

/-- The number of units of the magnitude nearest to `num / den` units, as if
there were no largest one. -/
def roundUnits (num den : Nat) : Nat :=
  roundDiv num (den * gap (num / den)) * gap (num / den)

theorem gap_dvd_roundUnits (num den : Nat) :
    gap (roundUnits num den) ∣ roundUnits num den := by
  apply gap_dvd_mul_twoPow
  have quotient : num / (den * gap (num / den)) < twoPow 53 := by
    rw [← Nat.div_div_eq_div_mul]
    exact div_gap_lt (num / den)
  have := roundDiv_le num (den * gap (num / den))
  omega

/-- What is on the grid already is not changed. -/
theorem roundUnits_one {n : Nat} (onGrid : gap n ∣ n) : roundUnits n 1 = n := by
  obtain ⟨k, same⟩ := onGrid
  -- The gap is left folded: only the number that is divided by it is expanded.
  rw [roundUnits, Nat.div_one, Nat.one_mul]
  conv => lhs; arg 1; arg 1; rw [same]
  rw [roundDiv_mul_left (gap_pos n), Nat.mul_comm, ← same]

/-- The number nearest to `num / den` units with the sign `negative`. -/
def nearest (negative : Bool) (num den : Nat) : Binary64 :=
  if inRange : roundUnits num den < limit then
    .finite negative ⟨roundUnits num den, inRange, gap_dvd_roundUnits num den⟩
  else
    .infinite negative

/-- Rounding keeps a finite number. -/
theorem nearest_units (negative : Bool) (m : Magnitude) :
    nearest negative m.units 1 = .finite negative m := by
  have same := roundUnits_one m.onGrid
  simp only [nearest, same, m.inRange, ↓reduceDIte]

end Binary64

end LineCalc
