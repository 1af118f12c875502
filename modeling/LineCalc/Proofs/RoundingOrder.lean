import LineCalc.Proofs.Conversion

/-!
# Rounding keeps order

A larger quotient is never rounded to a smaller magnitude (`roundUnits_le_roundUnits`).
Two quotients with the same gap are compared gap by gap.  If the second has the larger gap,
a power of two lies between them, which is on both grids: the first is not rounded above it
(`roundUnits_le_twoPow`) and the second not below it (`twoPow_log2_le_roundUnits`).
-/

namespace LineCalc

namespace Binary64

/-! ## One denominator -/

theorem roundDiv_le_roundDiv {num other : Nat} (le : num ≤ other) (den : Nat) :
    roundDiv num den ≤ roundDiv other den := by
  have quotients : num / den ≤ other / den := Nat.div_le_div_right le
  rcases Nat.eq_or_lt_of_le quotients with same | less
  · -- Between the same two whole numbers the remainders decide.
    have first := Nat.div_add_mod num den
    have second := Nat.div_add_mod other den
    rw [same] at first
    rw [roundDiv, roundDiv, same]
    split <;> split <;> omega
  · exact Nat.le_trans (roundDiv_le num den) (Nat.le_trans less (le_roundDiv other den))

/-- A quotient is not rounded above the next power of two. -/
theorem roundUnits_le_twoPow (num den : Nat) :
    roundUnits num den ≤ twoPow (53 + ((num / den).log2 - 52)) := by
  have quotient : num / (den * gap (num / den)) < twoPow 53 := by
    rw [← Nat.div_div_eq_div_mul]
    exact div_gap_lt (num / den)
  have rounded := Nat.le_trans (roundDiv_le num (den * gap (num / den))) quotient
  rw [roundUnits, twoPow_add]
  exact Nat.mul_le_mul_right _ rounded

/-- A long number holds a full significand of its own gaps. -/
theorem twoPow_le_div_gap {n : Nat} (large : 52 ≤ n.log2) : twoPow 52 ≤ n / gap n := by
  have nonzero : n ≠ 0 := by
    rintro rfl
    exact absurd large (by decide)
  rw [Nat.le_div_iff_mul_le (gap_pos n), gap, ← twoPow_add, Nat.add_sub_cancel' large]
  exact Nat.log2_self_le nonzero

theorem twoPow_log2_le_roundUnits {num den : Nat} (large : 52 ≤ (num / den).log2) :
    twoPow (num / den).log2 ≤ roundUnits num den := by
  have split : twoPow (num / den).log2 = twoPow 52 * gap (num / den) := by
    rw [gap, ← twoPow_add, Nat.add_sub_cancel' large]
  have quotient : twoPow 52 ≤ num / (den * gap (num / den)) := by
    rw [← Nat.div_div_eq_div_mul]
    exact twoPow_le_div_gap large
  rw [roundUnits, split]
  exact Nat.mul_le_mul_right _ (Nat.le_trans quotient (le_roundDiv num _))

theorem log2_le_log2 {m n : Nat} (le : m ≤ n) : m.log2 ≤ n.log2 := by
  by_cases zero : m = 0
  · subst zero
    exact Nat.zero_le _
  · have nonzero : n ≠ 0 := by omega
    exact (Nat.le_log2 nonzero).2 (Nat.le_trans (Nat.log2_self_le zero) le)

theorem roundUnits_le_of_le {num other : Nat} (le : num ≤ other) (den : Nat) :
    roundUnits num den ≤ roundUnits other den := by
  have quotients : num / den ≤ other / den := Nat.div_le_div_right le
  have lengths := log2_le_log2 quotients
  by_cases same : (num / den).log2 - 52 = (other / den).log2 - 52
  · have gaps : gap (num / den) = gap (other / den) := congrArg twoPow same
    rw [roundUnits, roundUnits, gaps]
    exact Nat.mul_le_mul_right _ (roundDiv_le_roundDiv le _)
  · have between : 53 + ((num / den).log2 - 52) ≤ (other / den).log2 := by omega
    calc
      roundUnits num den ≤ twoPow (53 + ((num / den).log2 - 52)) := roundUnits_le_twoPow num den
      _ ≤ twoPow (other / den).log2 := twoPow_le_twoPow between
      _ ≤ roundUnits other den := twoPow_log2_le_roundUnits (by omega)

/-! ## Two denominators -/

/-- A larger quotient is not rounded to a smaller magnitude. -/
theorem roundUnits_le_roundUnits {num den num' den' : Nat} (positive : 0 < den)
    (positive' : 0 < den') (le : num * den' ≤ num' * den) :
    roundUnits num den ≤ roundUnits num' den' := by
  have scaled := roundUnits_le_of_le le (den * den')
  rwa [roundUnits_mul_right num den positive', Nat.mul_comm den den',
    roundUnits_mul_right num' den' positive] at scaled

/-! ## Whole numbers up to `2 ^ 53` -/

/-- Up to `2 ^ 53` a whole number is not changed. -/
theorem roundUnits_of_le {n : Nat} (fits : n ≤ twoPow 53) : roundUnits n 1 = n := by
  apply roundUnits_one
  have grid := gap_dvd_mul_twoPow fits 0
  rwa [twoPow_zero, Nat.mul_one] at grid

/-- Only one larger whole number is rounded to one of them, the middle of `2 ^ 53` and the
next. -/
theorem eq_of_roundUnits_le {n : Nat} (fits : roundUnits n 1 ≤ twoPow 53) :
    n ≤ twoPow 53 ∨ n = twoPow 53 + 1 := by
  refine Decidable.byContradiction fun large => ?_
  have above : twoPow 53 + 2 ≤ n := by omega
  have kept : roundUnits (twoPow 53 + 2) 1 = twoPow 53 + 2 :=
    roundUnits_one (by decide +kernel)
  have order := roundUnits_le_of_le above 1
  omega

end Binary64

end LineCalc
