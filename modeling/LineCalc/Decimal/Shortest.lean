import LineCalc.Binary64.Rounding
import LineCalc.Text.Digits

/-!
# Shortest decimals

A decimal is a whole number of digits and a power of ten.  Many decimals round
to the same magnitude; `Decimal.shortest` chooses among them.  It goes through
the grids of multiples of `10 ^ e`, from the first whose positive points are all
above the magnitude to finer ones, and stops at the first on which one of the
magnitude's two neighbours reads back as the magnitude.  If neither neighbour
reads back, no point of the grid does, so no decimal with fewer digits reads
back.

If both neighbours read back, the nearer is taken, and the upper one if both
are equally near.  The finest grid, of multiples of `10 ^ -324`, is finer than
the smallest gap; should no grid have a point, the exact expansion stands in,
since every magnitude has a finite one.
-/

namespace LineCalc

open Binary64 (Magnitude nearest roundUnits one)

/-- The decimal `digits * 10 ^ exponent`. -/
structure Decimal where
  /-- All digits, read as one whole number. -/
  digits : Nat
  /-- The power of ten that the last digit counts. -/
  exponent : Int
  deriving DecidableEq

namespace Decimal

/-! ## Reading -/

/-- The number nearest to a decimal with a sign. -/
def toBinary64 (negative : Bool) (d : Decimal) : Binary64 :=
  nearest negative (d.digits * one * tenPow d.exponent.toNat) (tenPow (-d.exponent).toNat)

/-- Whether a decimal rounds to a magnitude. -/
def readsAs (d : Decimal) (m : Magnitude) : Bool :=
  roundUnits (d.digits * one * tenPow d.exponent.toNat) (tenPow (-d.exponent).toNat) == m.units

theorem toBinary64_of_readsAs {d : Decimal} {m : Magnitude} (reads : d.readsAs m = true)
    (negative : Bool) : d.toBinary64 negative = .finite negative m := by
  simp only [readsAs, beq_iff_eq] at reads
  simp only [toBinary64, nearest, reads, m.inRange, ↓reduceDIte]

/-! ## Choosing -/

/-- The multiples of `10 ^ e` below and above a magnitude, the nearer one first
and the upper one first if they are equally near. -/
def neighbours (m : Magnitude) (e : Int) : List Decimal :=
  -- One of the two powers is 1, so this is the magnitude over `10 ^ e` without fractions.
  let num := m.units * tenPow (-e).toNat
  let den := one * tenPow e.toNat
  let below : Decimal := ⟨num / den, e⟩
  let above : Decimal := ⟨num / den + 1, e⟩
  if 2 * (num % den) < den then [below, above] else [above, below]

/-- The neighbour on the grid of multiples of `10 ^ e` that stands for a
magnitude, if one does. -/
def onGrid? (m : Magnitude) (e : Int) : Option Decimal :=
  (neighbours m e).find? (·.readsAs m)

/-- The exponent of a power of ten above a magnitude, since one is more than
`10 ^ 323` units. -/
def topExponent (m : Magnitude) : Int := (natDigits m.units).length - 323

theorem tenPow_lt_one : tenPow 323 < one := by decide +kernel

/-- A magnitude is below the first positive point of the coarsest grid. -/
theorem units_lt_tenPow_topExponent (m : Magnitude) :
    m.units * tenPow (-topExponent m).toNat < one * tenPow (topExponent m).toNat := by
  have enough := lt_tenPow_length_natDigits m.units
  unfold topExponent
  -- From here on only the number of digits matters; 323 of them are less than one.
  generalize (natDigits m.units).length = length at enough
  rcases Nat.le_total 323 length with long | short
  · obtain ⟨k, rfl⟩ := Nat.exists_eq_add_of_le long
    rw [show (-(((323 + k : Nat) : Int) - 323)).toNat = 0 by omega,
      show (((323 + k : Nat) : Int) - 323).toNat = k by omega, tenPow_zero, Nat.mul_one]
    rw [tenPow_add] at enough
    exact Nat.lt_trans enough (Nat.mul_lt_mul_of_pos_right tenPow_lt_one (tenPow_pos k))
  · obtain ⟨k, total⟩ := Nat.exists_eq_add_of_le short
    rw [show (-((length : Int) - 323)).toNat = k by omega,
      show ((length : Int) - 323).toNat = 0 by omega, tenPow_zero, Nat.mul_one]
    refine Nat.lt_trans (Nat.mul_lt_mul_of_pos_right enough (tenPow_pos k)) ?_
    rw [← tenPow_add, ← total]
    exact tenPow_lt_one

/-- The digits of one unit, which is `5 ^ 1074 * 10 ^ -1074`. -/
def unitDigits : Nat := Nat.pow 5 1074

/-- The expansion of a magnitude with nothing rounded. -/
def expansion (m : Magnitude) : Decimal := ⟨m.units * unitDigits, -1074⟩

/-- The first decimal that stands for a magnitude on the grids with exponents from
`top` down to `-324`. -/
def firstOnGrid? (m : Magnitude) (top : Int) : Option Decimal :=
  (List.range (top + 325).toNat).findSome? fun k => onGrid? m (top - Int.ofNat k)

/-- The decimal with the fewest digits that reads back as a magnitude; of
several the nearest. -/
def shortest (m : Magnitude) : Decimal :=
  if m.units = 0 then ⟨0, 0⟩ else (firstOnGrid? m (topExponent m)).getD (expansion m)

theorem readsAs_of_onGrid? {m : Magnitude} {e : Int} {d : Decimal}
    (found : onGrid? m e = some d) : d.readsAs m = true := by
  rw [onGrid?] at found
  have reads := List.find?_some found
  exact reads

end Decimal

end LineCalc
