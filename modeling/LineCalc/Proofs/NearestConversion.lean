import LineCalc.Proofs.RoundingOrder
import Mathlib.Data.Nat.Dist

/-!
# The nearest magnitude

No magnitude lies between two neighbouring multiples of the gap at a number
(`Magnitude.le_or_le`), so the magnitude that a quotient is rounded to is the nearest of all
magnitudes, and of two that are equally near it is the one with the even significand
(`isNearest_of_roundUnits`).

A whole number of any size is hence converted to the nearest number unless it is
overlooked, and then to the neighbour below it, although the one above is nearer.  Either
way the conversion is finite just below `leastInfinite`, half a gap above the largest finite
number, and it is exact just if the number is representable (`ofNat_rounding`).
-/

namespace LineCalc

namespace Binary64

/-! ## Neighbours -/

theorem gap_dvd_of_twoPow_le {q : Nat} {m : Magnitude} (above : twoPow q.log2 ≤ m.units) :
    gap q ∣ m.units := by
  have nonzero : m.units ≠ 0 := Nat.ne_of_gt (Nat.lt_of_lt_of_le (twoPow_pos _) above)
  have lengths : q.log2 ≤ m.units.log2 := (le_log2_iff nonzero).2 above
  exact Nat.dvd_trans (twoPow_dvd_twoPow (Nat.sub_le_sub_right lengths 52)) m.onGrid

/-- No magnitude lies between the multiples of a gap around the number that it is the gap
at. -/
theorem Magnitude.le_or_le (m : Magnitude) (q : Nat) :
    m.units ≤ q / gap q * gap q ∨ (q / gap q + 1) * gap q ≤ m.units := by
  by_cases above : twoPow q.log2 ≤ m.units
  · obtain ⟨k, same⟩ := gap_dvd_of_twoPow_le above
    rw [same, Nat.mul_comm (gap q) k]
    rcases Nat.lt_or_ge (q / gap q) k with larger | smaller
    · exact .inr (Nat.mul_le_mul_right _ larger)
    · exact .inl (Nat.mul_le_mul_right _ smaller)
  · by_cases zero : q = 0
    · subst zero
      have none : m.units = 0 := Nat.lt_one_iff.1 (Nat.not_le.1 above)
      left
      rw [none]
      exact Nat.zero_le _
    · -- The leading power of two of `q` is a multiple of its gap.
      have multiple : twoPow q.log2 = twoPow (q.log2 - (q.log2 - 52)) * gap q := by
        rw [gap, ← twoPow_add, Nat.sub_add_cancel (Nat.sub_le _ _)]
      have quotient : twoPow (q.log2 - (q.log2 - 52)) ≤ q / gap q := by
        rw [Nat.le_div_iff_mul_le (gap_pos q), ← multiple]
        exact Nat.log2_self_le zero
      have leading : twoPow q.log2 ≤ q / gap q * gap q :=
        multiple ▸ Nat.mul_le_mul_right _ quotient
      exact .inl (Nat.le_trans (Nat.le_of_lt (Nat.not_le.1 above)) leading)

/-- A number of gaps with enough digits for a significand is one. -/
theorem Magnitude.significand_eq {m : Magnitude} {k e : Nat} (units : m.units = k * twoPow e)
    (fits : k < twoPow 53) (full : twoPow 52 ≤ k ∨ e = 0) : m.significand = k := by
  have place : gap m.units = twoPow e := by
    rcases full with large | rfl
    · have nonzero : k ≠ 0 := Nat.ne_of_gt (Nat.lt_of_lt_of_le (twoPow_pos 52) large)
      have upper : k.log2 < 53 := (log2_lt_iff nonzero).2 fits
      have lower : 52 ≤ k.log2 := (le_log2_iff nonzero).2 large
      rw [units, gap, log2_mul_twoPow nonzero]
      congr 1
      omega
    · rw [units, twoPow_zero, Nat.mul_one, gap_eq_one fits]
  rw [significand, place, units, Nat.mul_div_cancel _ (twoPow_pos e)]

/-- A magnitude that is an even number of gaps has an even significand, also where it is
the next power of two. -/
theorem Magnitude.significand_even {m : Magnitude} {k e : Nat} (units : m.units = k * twoPow e)
    (fits : k ≤ twoPow 53) (full : twoPow 52 ≤ k ∨ e = 0) (even : k % 2 = 0) :
    m.significand % 2 = 0 := by
  rcases Nat.eq_or_lt_of_le fits with rfl | below
  · have power : m.units = twoPow (53 + e) := units.trans (twoPow_add 53 e).symm
    have half : m.significand = twoPow 52 := by
      rw [significand, power, gap, log2_twoPow, show 53 + e = 52 + (53 + e - 52) by omega,
        twoPow_add 52, show 52 + (53 + e - 52) - 52 = 53 + e - 52 by omega,
        Nat.mul_div_cancel _ (twoPow_pos _)]
    rw [half]
    rfl
  · rw [significand_eq units below full]
    exact even

/-! ## Nearest magnitudes -/

/-- The magnitude is nearest to `num / den` units, and if another one is as near, its own
significand is even. -/
structure IsNearest (num den : Nat) (m : Magnitude) : Prop where
  closest : ∀ other : Magnitude,
    Nat.dist num (m.units * den) ≤ Nat.dist num (other.units * den)
  even : ∀ other : Magnitude, other ≠ m →
    Nat.dist num (m.units * den) = Nat.dist num (other.units * den) → m.significand % 2 = 0

/-- A number lies between two multiples of `d`.  The one that it is rounded to is nearer to
it than anything that is not between them, but for a middle that goes to the even one. -/
theorem dist_roundDiv (num other : Nat) {d : Nat} (positive : 0 < d)
    (outside : other ≤ num / d * d ∨ (num / d + 1) * d ≤ other) :
    Nat.dist num (roundDiv num d * d) < Nat.dist num other ∨ other = roundDiv num d * d ∨
      Nat.dist num (roundDiv num d * d) = Nat.dist num other ∧ roundDiv num d % 2 = 0 := by
  have split := Nat.div_add_mod' num d
  have bound := Nat.mod_lt num positive
  rw [Nat.succ_mul] at outside
  unfold roundDiv Nat.dist
  split
  next low => omega
  next high =>
    rw [Nat.succ_mul]
    omega

/-- Rounding gives the nearest magnitude. -/
theorem isNearest_of_roundUnits {num den : Nat} {m : Magnitude} (positive : 0 < den)
    (rounded : roundUnits num den = m.units) : IsNearest num den m := by
  have quotient : num / (den * gap (num / den)) = num / den / gap (num / den) :=
    (Nat.div_div_eq_div_mul num den _).symm
  have units : m.units * den =
      roundDiv num (den * gap (num / den)) * (den * gap (num / den)) := by
    rw [← rounded, roundUnits, Nat.mul_assoc, Nat.mul_comm den]
  have outside (other : Magnitude) := dist_roundDiv num (other.units * den)
    (Nat.mul_pos positive (gap_pos (num / den))) <| by
      rw [quotient, Nat.mul_comm den, ← Nat.mul_assoc, ← Nat.mul_assoc]
      exact (other.le_or_le (num / den)).imp (Nat.mul_le_mul_right den) (Nat.mul_le_mul_right den)
  rw [← units] at outside
  refine ⟨fun other => ?_, fun other distinct same => ?_⟩
  · rcases outside other with nearer | equal | ⟨equal, -⟩
    · exact Nat.le_of_lt nearer
    · exact Nat.le_of_eq (congrArg _ equal.symm)
    · exact Nat.le_of_eq equal
  · rcases outside other with nearer | equal | ⟨-, even⟩
    · exact absurd same (Nat.ne_of_lt nearer)
    · exact absurd (Magnitude.ext (Nat.mul_right_cancel positive equal)) distinct
    · have fits : num / den / gap (num / den) < twoPow 53 := div_gap_lt (num / den)
      refine Magnitude.significand_even rounded.symm ?_ ?_ even
      · have upper := roundDiv_le num (den * gap (num / den))
        omega
      · by_cases long : 52 ≤ (num / den).log2
        · have lower := le_roundDiv num (den * gap (num / den))
          rw [quotient] at lower
          exact .inl (Nat.le_trans (twoPow_le_div_gap long) lower)
        · exact .inr (Nat.sub_eq_zero_of_le (Nat.le_of_lt (Nat.not_le.1 long)))

/-! ## Overlooked numbers -/

namespace Overlooked

variable {n : Nat}

theorem not_lt (overlooked : Overlooked n) : ¬n < twoPow wordBits := by
  intro small
  refine overlooked.2 ?_
  rw [droppedBits_of_lt small, twoPow_zero, Nat.mod_one]

/-- The lowest of its leading bits is not set. -/
theorem not_sticky (overlooked : Overlooked n) : sticky n = false := by
  rw [Bool.eq_false_iff]
  intro marked
  have middle : leading n % 4096 = 1024 := overlooked.1
  rw [leading_of_sticky marked] at middle
  omega

theorem leading_eq (overlooked : Overlooked n) : leading n = n / twoPow (droppedBits n) :=
  leading_of_not_sticky overlooked.not_sticky

/-- An overlooked number is rounded down. -/
theorem roundUnits_abridge (overlooked : Overlooked n) :
    roundUnits (abridge n) 1 = n / gap n * gap n := by
  have middle : leading n % 4096 = 1024 := overlooked.1
  have down : roundDiv (leading n) 2048 = leading n / 2048 := by
    rw [roundDiv, if_pos]
    omega
  rw [Binary64.roundUnits_abridge overlooked.not_lt, down, overlooked.leading_eq,
    gap_of_not_lt overlooked.not_lt, Nat.div_div_eq_div_mul]

/-- Its lower neighbour has the even significand. -/
theorem div_gap_even (overlooked : Overlooked n) : n / gap n % 2 = 0 := by
  have middle : leading n % 4096 = 1024 := overlooked.1
  rw [gap_of_not_lt overlooked.not_lt, ← Nat.div_div_eq_div_mul, ← overlooked.leading_eq]
  omega

/-- It is above the middle of its neighbours, by bits that are cut off. -/
theorem mod_gap (overlooked : Overlooked n) :
    n % gap n = n % twoPow (droppedBits n) + twoPow (droppedBits n) * 1024 := by
  have middle : leading n % 4096 = 1024 := overlooked.1
  have half : n / twoPow (droppedBits n) % 2048 = 1024 := by
    rw [← overlooked.leading_eq]
    omega
  rw [gap_of_not_lt overlooked.not_lt, Nat.mod_mul, half]

theorem gap_lt (overlooked : Overlooked n) : gap n < 2 * (n % gap n) := by
  have above := overlooked.2
  rw [overlooked.mod_gap, gap_of_not_lt overlooked.not_lt]
  omega

theorem roundUnits_eq (overlooked : Overlooked n) :
    roundUnits n 1 = (n / gap n + 1) * gap n := by
  have above := overlooked.gap_lt
  rw [roundUnits, Nat.div_one, Nat.one_mul, roundDiv, if_neg]
  omega

end Overlooked

theorem eq_one_of_gap_odd {n : Nat} (odd : gap n % 2 = 1) : gap n = 1 := by
  unfold gap at *
  cases same : n.log2 - 52 with
  | zero => rfl
  | succ e =>
    rw [same, twoPow_add] at odd
    exact absurd odd (by simp [show twoPow 1 = 2 from rfl])

/-- The overlooked numbers: the lower one of the two neighbours is even, the number is above
their middle, and what it is above by begins below the leading bits and shows in none of the
bits that are looked at. -/
theorem overlooked_iff {n : Nat} :
    Overlooked n ↔ n / gap n % 2 = 0 ∧ gap n < 2 * (n % gap n) ∧
      2 * (n % gap n) < gap n + 2 * twoPow (droppedBits n) ∧ sticky n = false := by
  have bound := Nat.mod_lt n (twoPow_pos (droppedBits n))
  constructor
  · intro overlooked
    refine ⟨overlooked.div_gap_even, overlooked.gap_lt, ?_, overlooked.not_sticky⟩
    rw [overlooked.mod_gap, gap_of_not_lt overlooked.not_lt]
    omega
  · rintro ⟨even, above, near, clear⟩
    by_cases small : n < twoPow wordBits
    · -- Nothing is cut off, and no whole number lies just above the middle of a gap.
      rw [droppedBits_of_lt small, twoPow_zero] at near
      have odd : gap n % 2 = 1 := by omega
      rw [eq_one_of_gap_odd odd, Nat.mod_one] at above
      cases above
    · have large := gap_of_not_lt small
      rw [large, Nat.mod_mul] at above near
      have lower := (compare_middle bound (n / twoPow (droppedBits n) % 2048)).1
      have upper : n / twoPow (droppedBits n) % 2048 ≤ 1024 := by
        refine Nat.le_of_not_lt fun beyond => ?_
        have product := Nat.mul_le_mul_left (twoPow (droppedBits n)) beyond
        omega
      have middle : n / twoPow (droppedBits n) % 2048 = 1024 := by omega
      rw [middle] at above
      rw [large, ← Nat.div_div_eq_div_mul] at even
      have bits : n / twoPow (droppedBits n) % 4096 = 1024 := by omega
      rw [← leading_of_not_sticky clear] at bits
      exact ⟨bits, by omega⟩

/-! ## Conversions -/

/-- The least whole number that is converted to an infinity, half a gap above the largest
finite number. -/
def leastInfinite : Nat := twoPow 1024 - twoPow 970

theorem limit_eq : limit = twoPow 1024 * one := by
  rw [one, ← twoPow_add]
  exact congrArg twoPow (by decide)

theorem nearest_eq_infinite_iff {negative : Bool} {num den : Nat} :
    nearest negative num den = .infinite negative ↔ limit ≤ roundUnits num den := by
  unfold nearest
  split
  next below => simp [below]
  next above => simp [Nat.le_of_not_lt above]

theorem ofNat_eq_infinite_iff {n : Nat} :
    ofNat n = .infinite false ↔ twoPow 1024 ≤ roundUnits (abridge n) 1 := by
  have positive : 0 < one := twoPow_pos 1074
  rw [ofNat, nearest_eq_infinite_iff, roundUnits_mul_one, limit_eq]
  exact Nat.mul_le_mul_right_iff positive

/-- Cutting a number never makes it round up. -/
theorem roundUnits_abridge_le (n : Nat) : roundUnits (abridge n) 1 ≤ roundUnits n 1 := by
  by_cases overlooked : Overlooked n
  · rw [overlooked.roundUnits_abridge, overlooked.roundUnits_eq]
    exact Nat.mul_le_mul_right _ (Nat.le_succ _)
  · exact Nat.le_of_eq ((roundUnits_abridge_eq_iff n).2 overlooked)

/-- Between the largest finite number and the next power of two no number is overlooked,
since the significand of the former is odd. -/
theorem not_overlooked_of_leastInfinite_le {n : Nat} (large : leastInfinite ≤ n)
    (short : n < twoPow 1024) : ¬Overlooked n := by
  intro overlooked
  have below : twoPow 1023 ≤ n := Nat.le_trans (by decide +kernel) large
  have nonzero : n ≠ 0 := Nat.ne_of_gt (Nat.lt_of_lt_of_le (twoPow_pos 1023) below)
  have length : n.log2 = 1023 := by
    have lower := (le_log2_iff nonzero).2 below
    have upper := (log2_lt_iff nonzero).2 short
    omega
  have significand : n / gap n = twoPow 53 - 1 := by
    rw [gap, length]
    refine Nat.div_eq_of_lt_le (Nat.le_trans (by decide +kernel) large) ?_
    exact Nat.lt_of_lt_of_le short (by decide +kernel)
  have even := overlooked.div_gap_even
  rw [significand] at even
  exact absurd even (by decide)

theorem roundUnits_lt_of_lt_leastInfinite {n : Nat} (small : n < leastInfinite) :
    roundUnits n 1 < twoPow 1024 := by
  have bound : roundUnits (leastInfinite - 1) 1 < twoPow 1024 := by decide +kernel
  exact Nat.lt_of_le_of_lt (roundUnits_le_of_le (Nat.le_sub_one_of_lt small) 1) bound

theorem leastInfinite_le_iff {n : Nat} :
    leastInfinite ≤ n ↔ twoPow 1024 ≤ roundUnits (abridge n) 1 := by
  constructor
  · intro large
    rcases Nat.lt_or_ge n (twoPow 1024) with short | long
    · have rounded : roundUnits leastInfinite 1 = twoPow 1024 := by decide +kernel
      rw [(roundUnits_abridge_eq_iff n).2 (not_overlooked_of_leastInfinite_le large short),
        ← rounded]
      exact roundUnits_le_of_le large 1
    · have nonzero : n ≠ 0 := Nat.ne_of_gt (Nat.lt_of_lt_of_le (twoPow_pos 1024) long)
      have length : 1024 ≤ (abridge n / 1).log2 := by
        rw [Nat.div_one, log2_abridge]
        exact (le_log2_iff nonzero).2 long
      exact Nat.le_trans (twoPow_le_twoPow length)
        (twoPow_log2_le_roundUnits (Nat.le_trans (by decide) length))
  · intro rounded
    refine Nat.le_of_not_lt fun small => ?_
    have below := roundUnits_lt_of_lt_leastInfinite small
    exact Nat.not_lt.2 rounded (Nat.lt_of_le_of_lt (roundUnits_abridge_le n) below)

theorem mul_one_lt_limit {n : Nat} (small : n < twoPow 1024) : n * one < limit := by
  rw [limit_eq]
  exact Nat.mul_lt_mul_of_pos_right small (twoPow_pos 1074)

/-- Below that there is a magnitude to round to. -/
theorem exists_magnitude {n : Nat} (small : n < leastInfinite) :
    ∃ m : Magnitude, m.units = roundUnits n 1 * one := by
  have inRange := mul_one_lt_limit (roundUnits_lt_of_lt_leastInfinite small)
  rw [← roundUnits_mul_one] at inRange ⊢
  exact ⟨⟨_, inRange, gap_dvd_roundUnits _ 1⟩, rfl⟩

theorem exists_ofNat_eq_finite {n : Nat} (small : n < leastInfinite) :
    ∃ m, ofNat n = .finite false m ∧ m.units = roundUnits (abridge n) 1 * one := by
  have rounded : roundUnits (abridge n) 1 < twoPow 1024 :=
    Nat.lt_of_not_le fun large => Nat.not_lt.2 (leastInfinite_le_iff.2 large) small
  have inRange := mul_one_lt_limit rounded
  rw [← roundUnits_mul_one] at inRange
  rw [ofNat, nearest, dif_pos inRange]
  exact ⟨_, rfl, roundUnits_mul_one (abridge n)⟩

/-- Numbers that are not overlooked are converted to the nearest number. -/
theorem isNearest_of_not_overlooked {n : Nat} {m : Magnitude} (noticed : ¬Overlooked n)
    (units : m.units = roundUnits (abridge n) 1 * one) : IsNearest (n * one) 1 m := by
  apply isNearest_of_roundUnits Nat.one_pos
  rw [units, (roundUnits_abridge_eq_iff n).2 noticed, roundUnits_mul_one]

namespace Overlooked

variable {n : Nat} {m : Magnitude}

theorem units_lt (overlooked : Overlooked n) (units : m.units = roundUnits (abridge n) 1 * one) :
    m.units < n * one := by
  have above := overlooked.gap_lt
  have split := Nat.div_add_mod' n (gap n)
  rw [units, overlooked.roundUnits_abridge]
  exact Nat.mul_lt_mul_of_pos_right (by omega) (twoPow_pos 1074)

/-- An overlooked number is converted to its lower neighbour. -/
theorem le_units (overlooked : Overlooked n) (units : m.units = roundUnits (abridge n) 1 * one)
    {other : Magnitude} (below : other.units ≤ n * one) : other.units ≤ m.units := by
  have large : ¬n < twoPow 53 := fun small =>
    overlooked.not_lt (Nat.lt_trans small (twoPow_lt_twoPow (by decide)))
  have positive : 0 < one := twoPow_pos 1074
  have outside := other.le_or_le (n * one)
  rw [gap_mul_one large, Nat.mul_div_mul_right _ _ positive, ← Nat.mul_assoc,
    ← Nat.mul_assoc] at outside
  rw [units, overlooked.roundUnits_abridge]
  refine outside.resolve_right fun above => ?_
  have next := Nat.le_of_mul_le_mul_right (Nat.le_trans above below) positive
  have split := Nat.div_add_mod' n (gap n)
  have bound := Nat.mod_lt n (gap_pos n)
  rw [Nat.succ_mul] at next
  omega

/-- Its upper neighbour is nearer. -/
theorem not_isNearest (overlooked : Overlooked n) (small : n < leastInfinite)
    (units : m.units = roundUnits (abridge n) 1 * one) : ¬IsNearest (n * one) 1 m := by
  intro nearest
  obtain ⟨upper, units'⟩ := exists_magnitude small
  have order := nearest.closest upper
  rw [Nat.mul_one, Nat.mul_one, units, units', Nat.dist_mul_right, Nat.dist_mul_right,
    overlooked.roundUnits_abridge, overlooked.roundUnits_eq, Nat.succ_mul] at order
  have positive : 0 < one := twoPow_pos 1074
  have closer := Nat.le_of_mul_le_mul_right order positive
  have above := overlooked.gap_lt
  have split := Nat.div_add_mod' n (gap n)
  have bound := Nat.mod_lt n (gap_pos n)
  unfold Nat.dist at closer
  omega

/-- It is not representable. -/
theorem units_ne (overlooked : Overlooked n) : m.units ≠ n * one := by
  intro units
  have kept : roundUnits (n * one) 1 = n * one := roundUnits_one (units ▸ m.onGrid)
  rw [roundUnits_mul_one] at kept
  have same := Nat.mul_right_cancel (twoPow_pos 1074) kept
  have split := Nat.div_add_mod' n (gap n)
  have bound := Nat.mod_lt n (gap_pos n)
  rw [overlooked.roundUnits_eq, Nat.succ_mul] at same
  omega

end Overlooked

/-- Every whole number is converted to the nearest number, of two equally near ones to the
one with the even significand, unless it is overlooked; then it is converted to the largest
number below it.  It becomes infinite from half a gap above the largest finite number on, and
it is not changed just if it is representable.  No number below `2 ^ 128` is overlooked. -/
theorem ofNat_rounding (n : Nat) :
    (n < leastInfinite → ∃ m, ofNat n = .finite false m ∧
      (IsNearest (n * one) 1 m ↔ ¬Overlooked n) ∧
      (Overlooked n → m.units < n * one ∧
        ∀ other : Magnitude, other.units ≤ n * one → other.units ≤ m.units)) ∧
    (leastInfinite ≤ n → ofNat n = .infinite false) ∧
    ((∃ m, ofNat n = .finite false m ∧ m.units = n * one) ↔
      ∃ m : Magnitude, m.units = n * one) ∧
    (Overlooked n ↔ n / gap n % 2 = 0 ∧ gap n < 2 * (n % gap n) ∧
      2 * (n % gap n) < gap n + 2 * twoPow (droppedBits n) ∧ sticky n = false) ∧
    (n < twoPow 128 → ¬Overlooked n) := by
  refine ⟨fun small => ?_, fun large => ?_, ?_, overlooked_iff, not_overlooked_of_lt⟩
  · obtain ⟨m, same, units⟩ := exists_ofNat_eq_finite small
    refine ⟨m, same, ⟨?_, fun noticed => isNearest_of_not_overlooked noticed units⟩, ?_⟩
    · intro nearest overlooked
      exact overlooked.not_isNearest small units nearest
    · intro overlooked
      exact ⟨overlooked.units_lt units, fun other => overlooked.le_units units⟩
  · exact ofNat_eq_infinite_iff.2 (leastInfinite_le_iff.1 large)
  · refine ⟨fun ⟨m, _, units⟩ => ⟨m, units⟩, fun ⟨m, units⟩ => ⟨m, ?_, units⟩⟩
    have kept : roundUnits (n * one) 1 = m.units :=
      (roundUnits_one (units ▸ m.onGrid)).trans units.symm
    exact (ofNat_eq_finite_iff kept).2 fun overlooked => overlooked.units_ne units

/-- A number just above the middle of `2 ^ 128` and the next larger number is converted to
`2 ^ 128`. -/
theorem ofNat_not_nearest :
    twoPow 128 + twoPow 75 + 2 < leastInfinite ∧
      ¬∃ m, ofNat (twoPow 128 + twoPow 75 + 2) = .finite false m ∧
        IsNearest ((twoPow 128 + twoPow 75 + 2) * one) 1 m := by
  have small : twoPow 128 + twoPow 75 + 2 < leastInfinite := by decide +kernel
  have overlooked : Overlooked (twoPow 128 + twoPow 75 + 2) := by decide +kernel
  refine ⟨small, fun ⟨m, same, nearest⟩ => ?_⟩
  obtain ⟨m', same', units⟩ := exists_ofNat_eq_finite small
  cases same.symm.trans same'
  exact overlooked.not_isNearest small units nearest

end Binary64

end LineCalc
