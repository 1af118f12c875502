import LineCalc.Proofs.DecimalTexts
import LineCalc.Proofs.NearestConversion
import Mathlib.Algebra.Order.Field.Basic

/-!
# Rounding rational numbers

What a rational number is rounded to is said without the algorithm: the nearest of all
magnitudes, the one with the even significand of two that are equally near, and infinity
from half a gap above the largest one on (`RoundsTo`).  The rounding of a quotient is what
this says and nothing else (`roundsTo_iff`), since there is only one nearest magnitude
(`IsNearest.eq`): between two that are equally near there is no third, so they are
neighbours, and of two neighbours only one has an even significand.

Hence a decimal rounds to a magnitude just if it reads as the magnitude
(`Decimal.roundsTo_iff_readsAs`).
-/

namespace LineCalc

namespace Binary64

/-! ## Neighbours -/

namespace Magnitude

variable {m n : Magnitude}

/-- A larger magnitude is larger by a gap at least. -/
theorem add_gap_le (below : m.units < n.units) : m.units + gap m.units ≤ n.units := by
  have outside := n.le_or_le m.units
  rw [Nat.div_mul_cancel m.onGrid, Nat.succ_mul, Nat.div_mul_cancel m.onGrid] at outside
  exact outside.resolve_left (Nat.not_le.2 below)

theorem add_gap_eq (m : Magnitude) :
    m.units + gap m.units = (m.significand + 1) * twoPow m.gapExponent := by
  rw [Nat.succ_mul, significand_mul_twoPow]
  rfl

/-- Up to a larger magnitude there is one a gap above. -/
theorem exists_next (below : m.units < n.units) :
    ∃ next : Magnitude, next.units = m.units + gap m.units := by
  have inRange := Nat.lt_of_le_of_lt (add_gap_le below) n.inRange
  have onGrid := gap_dvd_mul_twoPow m.significand_lt m.gapExponent
  rw [← add_gap_eq] at onGrid
  exact ⟨⟨_, inRange, onGrid⟩, rfl⟩

theorem significand_full (m : Magnitude) : twoPow 52 ≤ m.significand ∨ m.gapExponent = 0 := by
  rcases Nat.le_total 52 m.units.log2 with long | short
  · exact .inl (twoPow_le_div_gap long)
  · exact .inr (Nat.sub_eq_zero_of_le short)

/-- The magnitude after one with an even significand has an odd one. -/
theorem significand_next (even : m.significand % 2 = 0)
    (next : n.units = m.units + gap m.units) : n.significand = m.significand + 1 := by
  have fits : m.significand + 1 < twoPow 53 := by
    have below := m.significand_lt
    rw [twoPow_add 1 52, show twoPow 1 = 2 from rfl] at below ⊢
    omega
  exact significand_eq (next.trans m.add_gap_eq) fits (m.significand_full.imp_left Nat.le_succ_of_le)

end Magnitude

/-! ## The nearest magnitude -/

namespace IsNearest

variable {num den : Nat} {m n : Magnitude}

theorem units_le (positive : 0 < den) (first : IsNearest num den m)
    (second : IsNearest num den n) : n.units ≤ m.units := by
  refine Nat.le_of_not_lt fun below => ?_
  have distinct : n ≠ m := by
    rintro rfl
    exact Nat.lt_irrefl _ below
  have same := Nat.le_antisymm (first.closest n) (second.closest m)
  have even := first.even n distinct same
  have even' := second.even m distinct.symm same.symm
  rcases Nat.eq_or_lt_of_le (Magnitude.add_gap_le below) with next | beyond
  · have odd := Magnitude.significand_next even next.symm
    omega
  · -- A magnitude between the two would be nearer than both.
    obtain ⟨middle, units⟩ := Magnitude.exists_next below
    have closest := first.closest middle
    rw [← units] at beyond
    have above : m.units < middle.units := units ▸ Nat.lt_add_of_pos_right (gap_pos m.units)
    have lower := Nat.mul_lt_mul_of_pos_right above positive
    have upper := Nat.mul_lt_mul_of_pos_right beyond positive
    unfold Nat.dist at same closest
    omega

/-- There is one nearest magnitude. -/
theorem eq (positive : 0 < den) (first : IsNearest num den m) (second : IsNearest num den n) :
    m = n :=
  Magnitude.ext (Nat.le_antisymm (second.units_le positive first) (first.units_le positive second))

end IsNearest

/-! ## The range -/

/-- Below the middle after `k` a quotient is not rounded above `k`. -/
theorem roundDiv_le_of_lt {num den k : Nat} (below : 2 * num < (2 * k + 1) * den) :
    roundDiv num den ≤ k := by
  have split := Nat.div_add_mod' num den
  have quotient : num / den ≤ k := by
    refine Nat.le_of_not_lt fun above => ?_
    have product := Nat.mul_le_mul_right den above
    rw [Nat.succ_mul] at product
    rw [Nat.add_mul, Nat.mul_assoc, Nat.one_mul] at below
    omega
  rcases Nat.eq_or_lt_of_le quotient with same | less
  · rw [same] at split
    rw [Nat.add_mul, Nat.mul_assoc, Nat.one_mul] at below
    rw [roundDiv, if_pos (.inl (by omega)), same]
  · exact Nat.le_trans (roundDiv_le num den) less

theorem roundUnits_leastInfinite : roundUnits leastInfinite 1 = twoPow 1024 := by decide +kernel

/-- The least infinite number, in halves of the gap just below it. -/
theorem two_mul_leastInfinite_mul_one :
    2 * (leastInfinite * one) = (2 * (twoPow 53 - 1) + 1) * twoPow 2045 := by decide +kernel

theorem leastInfinite_mul_one_lt : leastInfinite * one < limit := by decide +kernel

/-- A quotient is in range just below the least infinite number. -/
theorem roundUnits_lt_limit_iff {num den : Nat} (positive : 0 < den) :
    roundUnits num den < limit ↔ num < leastInfinite * one * den := by
  constructor
  · intro inRange
    refine Nat.lt_of_not_le fun large => ?_
    have order := roundUnits_le_roundUnits Nat.one_pos positive
      (show leastInfinite * one * den ≤ num * 1 by rwa [Nat.mul_one])
    rw [roundUnits_mul_one, roundUnits_leastInfinite, ← limit_eq] at order
    exact Nat.not_lt.2 order inRange
  · intro small
    have quotient : num / den < limit :=
      Nat.lt_trans ((Nat.div_lt_iff_lt_mul positive).2 small) leastInfinite_mul_one_lt
    have length : (num / den).log2 < 2098 := by
      by_cases zero : num / den = 0
      · rw [zero]
        decide
      · exact (log2_lt_iff zero).2 quotient
    by_cases last : (num / den).log2 = 2097
    · -- The gap is that below the least infinite number.
      have place : gap (num / den) = twoPow 2045 := by rw [gap, last]
      have rounded : roundDiv num (den * twoPow 2045) ≤ twoPow 53 - 1 := by
        apply roundDiv_le_of_lt
        have doubled : 2 * num < 2 * (leastInfinite * one * den) :=
          Nat.mul_lt_mul_of_pos_left small Nat.two_pos
        rwa [← Nat.mul_assoc, two_mul_leastInfinite_mul_one, Nat.mul_assoc,
          Nat.mul_comm (twoPow 2045)] at doubled
      have below : roundDiv num (den * twoPow 2045) < twoPow 53 :=
        Nat.lt_of_le_of_lt rounded (Nat.sub_lt (twoPow_pos 53) Nat.one_pos)
      have bound : limit = twoPow 53 * twoPow 2045 := twoPow_add 53 2045
      rw [roundUnits, place, bound]
      exact Nat.mul_lt_mul_of_pos_right below (twoPow_pos 2045)
    · have shorter : 53 + ((num / den).log2 - 52) < 2098 := by omega
      exact Nat.lt_of_le_of_lt (roundUnits_le_twoPow num den) (twoPow_lt_twoPow shorter)

/-- Rounding is finding the nearest magnitude of a number in range. -/
theorem roundUnits_eq_iff {num den : Nat} {m : Magnitude} (positive : 0 < den) :
    roundUnits num den = m.units ↔ num < leastInfinite * one * den ∧ IsNearest num den m := by
  rw [← roundUnits_lt_limit_iff positive]
  constructor
  · intro rounded
    exact ⟨rounded ▸ m.inRange, isNearest_of_roundUnits positive rounded⟩
  · rintro ⟨inRange, nearest⟩
    have found : IsNearest num den ⟨_, inRange, gap_dvd_roundUnits num den⟩ :=
      isNearest_of_roundUnits positive rfl
    exact congrArg Magnitude.units (found.eq positive nearest)

/-! ## Rational numbers -/

/-- The size of a magnitude as a rational number. -/
def Magnitude.value (m : Magnitude) : ℚ := m.units / one

/-- The magnitude is the nearest to a number, and if another one is as near, its own
significand is even. -/
structure IsClosest (q : ℚ) (m : Magnitude) : Prop where
  closest : ∀ other : Magnitude, |q - m.value| ≤ |q - other.value|
  even : ∀ other : Magnitude, other ≠ m → |q - m.value| = |q - other.value| →
    m.significand % 2 = 0

/-- What the number of the size `q` with a sign is rounded to: to nearest, ties to even. -/
inductive RoundsTo (negative : Bool) (q : ℚ) : Binary64 → Prop where
  | finite {m : Magnitude} (below : q < leastInfinite) (closest : IsClosest q m) :
      RoundsTo negative q (.finite negative m)
  | infinite (above : (leastInfinite : ℚ) ≤ q) : RoundsTo negative q (.infinite negative)

theorem cast_one_pos : (0 : ℚ) < (one : Nat) := Nat.cast_pos.2 (twoPow_pos 1074)

theorem cast_mul_one_pos {den : Nat} (positive : 0 < den) : (0 : ℚ) < (den * one : Nat) :=
  Nat.cast_pos.2 (Nat.mul_pos positive (twoPow_pos 1074))

theorem cast_dist (a b : Nat) : ((Nat.dist a b : Nat) : ℚ) = |(a : ℚ) - b| := by
  rcases Nat.le_total a b with le | le
  · have order : (a : ℚ) - b ≤ 0 := sub_nonpos.2 (Nat.cast_le.2 le)
    rw [Nat.dist_eq_sub_of_le le, abs_of_nonpos order, Nat.cast_sub le, neg_sub]
  · have order : 0 ≤ (a : ℚ) - b := sub_nonneg.2 (Nat.cast_le.2 le)
    rw [Nat.dist_eq_sub_of_le_right le, abs_of_nonneg order, Nat.cast_sub le]

section Quotients

variable {q : ℚ} {num den : Nat} (positive : 0 < den) (same : q = num / (den * one : Nat))
include positive same

theorem abs_sub_value (m : Magnitude) :
    |q - m.value| = (Nat.dist num (m.units * den) : Nat) / (den * one : Nat) := by
  have some : (den : ℚ) ≠ 0 := Nat.cast_ne_zero.2 (Nat.ne_of_gt positive)
  have value : m.value = (m.units * den : Nat) / (den * one : Nat) := by
    rw [Magnitude.value, Nat.cast_mul, Nat.cast_mul, mul_comm (m.units : ℚ),
      mul_div_mul_left _ _ some]
  rw [same, value, ← sub_div, abs_div, Nat.abs_cast, cast_dist]

theorem isClosest_iff {m : Magnitude} : IsClosest q m ↔ IsNearest num den m := by
  have scale := cast_mul_one_pos positive
  have order (a b : Magnitude) : |q - a.value| ≤ |q - b.value| ↔
      Nat.dist num (a.units * den) ≤ Nat.dist num (b.units * den) := by
    rw [abs_sub_value positive same, abs_sub_value positive same, div_le_div_iff_of_pos_right scale,
      Nat.cast_le]
  have equal (a b : Magnitude) : |q - a.value| = |q - b.value| ↔
      Nat.dist num (a.units * den) = Nat.dist num (b.units * den) := by
    rw [abs_sub_value positive same, abs_sub_value positive same, div_left_inj' scale.ne',
      Nat.cast_inj]
  constructor
  · rintro ⟨closest, even⟩
    exact ⟨fun other => (order m other).1 (closest other),
      fun other distinct tie => even other distinct ((equal m other).2 tie)⟩
  · rintro ⟨closest, even⟩
    exact ⟨fun other => (order m other).2 (closest other),
      fun other distinct tie => even other distinct ((equal m other).1 tie)⟩

theorem lt_leastInfinite_iff : q < leastInfinite ↔ num < leastInfinite * one * den := by
  rw [same, div_lt_iff₀ (cast_mul_one_pos positive), ← Nat.cast_mul, Nat.cast_lt, Nat.mul_comm den, Nat.mul_assoc]

/-- A quotient of units is rounded to what the number that it is rounds to, and to nothing
else. -/
theorem roundsTo_iff {negative : Bool} {x : Binary64} :
    RoundsTo negative q x ↔ nearest negative num den = x := by
  constructor
  · rintro (⟨below, closest⟩ | above)
    · rw [nearest_eq_finite_iff, roundUnits_eq_iff positive]
      exact ⟨(lt_leastInfinite_iff positive same).1 below, (isClosest_iff positive same).1 closest⟩
    · rw [nearest_eq_infinite_iff, ← Nat.not_lt, roundUnits_lt_limit_iff positive,
        ← lt_leastInfinite_iff positive same]
      exact not_lt.2 above
  · rintro rfl
    rw [nearest]
    split
    next inRange =>
      have found := (roundUnits_eq_iff (m := ⟨_, inRange, gap_dvd_roundUnits num den⟩) positive).1 rfl
      exact .finite ((lt_leastInfinite_iff positive same).2 found.1)
        ((isClosest_iff positive same).2 found.2)
    next large =>
      rw [roundUnits_lt_limit_iff positive, ← lt_leastInfinite_iff positive same] at large
      exact .infinite (not_lt.1 large)

end Quotients

end Binary64

/-! ## Decimals -/

namespace Decimal

open Binary64 (Magnitude RoundsTo one)

theorem roundsTo_iff {d : Decimal} {negative : Bool} {x : Binary64} :
    RoundsTo negative d.value x ↔ d.toBinary64 negative = x := by
  refine Binary64.roundsTo_iff (tenPow_pos _) ?_
  rw [value_eq_div, Nat.mul_right_comm, Nat.cast_mul _ one, Nat.cast_mul _ one,
    mul_div_mul_right _ _ Binary64.cast_one_pos.ne']

/-- A decimal rounds to a magnitude just if it reads as it. -/
theorem roundsTo_iff_readsAs {d : Decimal} {negative sign : Bool} {m : Magnitude} :
    RoundsTo negative d.value (.finite sign m) ↔ sign = negative ∧ d.readsAs m = true := by
  rw [roundsTo_iff]
  constructor
  · intro same
    have signs : sign = negative := by
      rw [toBinary64, Binary64.nearest] at same
      split at same
      next =>
        cases same
        rfl
      next => cases same
    exact ⟨signs, beq_iff_eq.2 (Binary64.units_of_nearest_eq_finite same)⟩
  · rintro ⟨rfl, reads⟩
    exact toBinary64_of_readsAs reads sign

end Decimal

end LineCalc
