import LineCalc.Proofs.Whole

/-!
# Converting whole numbers

A whole number is converted after it was cut to its leading bits, so its conversion is
the nearest binary64 number just if the cut does not matter to the rounding.  It
matters to *overlooked* numbers alone: their leading bits are the middle of two
neighbours, of which the lower one is even, and the ones below that put them above the
middle are not looked at (`roundUnits_abridge_eq_iff`).  They are converted to the
lower neighbour although the upper one is nearer.

A number below `2 ^ 128` is not overlooked (`not_overlooked_of_lt`), since its second
word has no bits that are cut off and not looked at.

Rounding does not depend on the unit (`roundUnits_mul_one`), so a whole number is
rounded to a whole number.
-/

namespace LineCalc

namespace Binary64

/-! ## Scales -/

theorem roundDiv_mul_right (num den : Nat) {c : Nat} (positive : 0 < c) :
    roundDiv (num * c) (den * c) = roundDiv num den := by
  have below : 2 * (num % den * c) < den * c ↔ 2 * (num % den) < den := by
    rw [← Nat.mul_assoc]
    exact Nat.mul_lt_mul_right positive
  have middle : 2 * (num % den * c) = den * c ↔ 2 * (num % den) = den := by
    rw [← Nat.mul_assoc]
    exact Nat.mul_left_inj (Nat.ne_of_gt positive)
  rw [roundDiv, roundDiv, Nat.mul_mod_mul_right, Nat.mul_div_mul_right _ _ positive]
  simp only [below, middle]

theorem roundUnits_mul_right (num den : Nat) {c : Nat} (positive : 0 < c) :
    roundUnits (num * c) (den * c) = roundUnits num den := by
  rw [roundUnits, roundUnits, Nat.mul_div_mul_right _ _ positive,
    Nat.mul_right_comm den c, roundDiv_mul_right _ _ positive]

theorem nearest_mul_right (negative : Bool) (num den : Nat) {c : Nat} (positive : 0 < c) :
    nearest negative (num * c) (den * c) = nearest negative num den := by
  simp only [nearest, roundUnits_mul_right num den positive]

theorem log2_mul_twoPow {n : Nat} (nonzero : n ≠ 0) (e : Nat) :
    (n * twoPow e).log2 = n.log2 + e := by
  have product : n * twoPow e ≠ 0 := Nat.mul_ne_zero nonzero (Nat.ne_of_gt (twoPow_pos e))
  refine (Nat.log2_eq_iff product).2 ⟨?_, ?_⟩
  · have below : twoPow n.log2 * twoPow e ≤ n * twoPow e :=
      Nat.mul_le_mul_right _ (Nat.log2_self_le nonzero)
    rwa [← twoPow_add] at below
  · have above : n * twoPow e < twoPow (n.log2 + 1) * twoPow e :=
      Nat.mul_lt_mul_of_pos_right (lt_twoPow_log2 n) (twoPow_pos e)
    rwa [← twoPow_add, Nat.add_right_comm] at above

/-- A number with a full significand has it in every unit. -/
theorem gap_mul_one {n : Nat} (large : ¬n < twoPow 53) : gap (n * one) = gap n * one := by
  have nonzero : n ≠ 0 := by
    rintro rfl
    exact large (twoPow_pos 53)
  have long : 53 ≤ n.log2 := (le_log2_iff nonzero).2 (Nat.not_lt.1 large)
  rw [gap, one, log2_mul_twoPow nonzero, gap, ← twoPow_add]
  congr 1
  omega

/-- Rounding a whole number does not depend on the unit that it is counted in. -/
theorem roundUnits_mul_one (n : Nat) : roundUnits (n * one) 1 = roundUnits n 1 * one := by
  by_cases small : n < twoPow 53
  · have kept : roundUnits n 1 = n := by
      apply roundUnits_one
      rw [gap_eq_one small]
      exact Nat.one_dvd n
    rw [kept]
    exact roundUnits_one (gap_dvd_mul_twoPow (Nat.le_of_lt small) 1074)
  · have positive : 0 < one := twoPow_pos 1074
    rw [roundUnits, roundUnits, Nat.div_one, Nat.div_one, Nat.one_mul, Nat.one_mul,
      gap_mul_one small, roundDiv_mul_right _ _ positive, Nat.mul_assoc]

/-! ## Overlooked numbers -/

/-- The leading bits of a number are the middle of two neighbours, the lower one even,
but the number is above the middle. -/
def Overlooked (n : Nat) : Prop :=
  leading n % twoPow 12 = twoPow 10 ∧ n % twoPow (droppedBits n) ≠ 0

instance (n : Nat) : Decidable (Overlooked n) := inferInstanceAs (Decidable (_ ∧ _))

theorem leading_of_sticky {n : Nat} (marked : sticky n = true) :
    leading n = n / twoPow (droppedBits n) / 2 * 2 + 1 := by
  simp [leading, marked]

theorem leading_of_not_sticky {n : Nat} (clear : sticky n = false) :
    leading n = n / twoPow (droppedBits n) := by
  simp [leading, clear]

/-- A number is above its leading bits if it is sticky. -/
theorem mod_ne_zero_of_sticky {n : Nat} (marked : sticky n = true) :
    n % twoPow (droppedBits n) ≠ 0 := by
  intro none
  obtain ⟨i, inside, found⟩ := List.any_eq_true.1 marked
  rw [bne_iff_ne] at found
  rw [List.mem_range] at inside
  -- The bits that are looked at in a lower word are among the dropped ones.
  have among : wordBits * i + topBits n ≤ droppedBits n := by
    unfold topBits droppedBits wordBits at *
    omega
  have divides : twoPow (wordBits * i) * twoPow (topBits n) ∣ n := by
    rw [← twoPow_add]
    exact Nat.dvd_trans (twoPow_dvd_twoPow among) (Nat.dvd_of_mod_eq_zero none)
  exact found (Nat.mod_eq_zero_of_dvd (Nat.dvd_div_of_mul_dvd divides))

/-- Where a quotient lies whose whole part is `j` and a fraction `r / h`, seen from 1024. -/
theorem compare_middle {h r : Nat} (fraction : r < h) (j : Nat) :
    (2 * (r + h * j) < h * 2048 ↔ j < 1024) ∧
      (2 * (r + h * j) = h * 2048 ↔ j = 1024 ∧ r = 0) := by
  rcases Nat.lt_trichotomy j 1024 with below | rfl | above
  · have bound : h * (j + 1) ≤ h * 1024 := Nat.mul_le_mul_left h below
    rw [Nat.mul_succ] at bound
    omega
  · omega
  · have bound : h * (1024 + 1) ≤ h * j := Nat.mul_le_mul_left h above
    omega

/-- A number may be cut to a multiple of `h` before it is rounded to a multiple of
`h * 2048`, with a bit set for what is cut off or without.  The results differ just where
the bit is missing at the middle. -/
theorem roundDiv_eq_iff {n h kept : Nat} (positive : 0 < h)
    (cut : kept = n / h ∨ kept = n / h / 2 * 2 + 1 ∧ n % h ≠ 0) :
    roundDiv kept 2048 = roundDiv n (h * 2048) ↔ ¬(kept % 4096 = 1024 ∧ n % h ≠ 0) := by
  have quotient : n / (h * 2048) = n / h / 2048 := (Nat.div_div_eq_div_mul n h 2048).symm
  have remainder : n % (h * 2048) = n % h + h * (n / h % 2048) := Nat.mod_mul
  obtain ⟨below, middle⟩ := compare_middle (Nat.mod_lt n positive) (n / h % 2048)
  rw [roundDiv, roundDiv, quotient, remainder]
  simp only [below, middle]
  generalize n / h = whole at cut
  generalize n % h = rest at cut
  split <;> split <;> omega

theorem droppedBits_of_lt {n : Nat} (small : n < twoPow wordBits) : droppedBits n = 0 := by
  by_cases zero : n = 0
  · subst zero
    rfl
  · have length := (log2_lt_iff zero).2 small
    unfold droppedBits
    omega

/-- Longer numbers keep eleven bits more than the numbers around them have. -/
theorem gap_of_not_lt {n : Nat} (large : ¬n < twoPow wordBits) :
    gap n = twoPow (droppedBits n) * 2048 := by
  have nonzero : n ≠ 0 := by
    rintro rfl
    exact large (twoPow_pos wordBits)
  have long : wordBits ≤ n.log2 := Nat.le_of_not_lt fun lt => large ((log2_lt_iff nonzero).1 lt)
  have split : n.log2 - 52 = droppedBits n + 11 := by
    unfold droppedBits wordBits at *
    omega
  rw [gap, split, twoPow_add]
  rfl

/-- A longer number is rounded as its leading bits are. -/
theorem roundUnits_abridge {n : Nat} (large : ¬n < twoPow wordBits) :
    roundUnits (abridge n) 1 = roundDiv (leading n) 2048 * gap n := by
  have same : gap (abridge n) = gap n := by rw [gap, log2_abridge, gap]
  rw [roundUnits, Nat.div_one, Nat.one_mul, same, gap_of_not_lt large, abridge,
    Nat.mul_comm _ 2048, roundDiv_mul_right _ _ (twoPow_pos (droppedBits n))]

/-- Cutting a number changes what it is rounded to just if it is overlooked. -/
theorem roundUnits_abridge_eq_iff (n : Nat) :
    roundUnits (abridge n) 1 = roundUnits n 1 ↔ ¬Overlooked n := by
  by_cases small : n < twoPow wordBits
  · rw [abridge_of_lt small, Overlooked, droppedBits_of_lt small, twoPow_zero, Nat.mod_one]
    simp
  · have positive := twoPow_pos (droppedBits n)
    have cut : leading n = n / twoPow (droppedBits n) ∨
        leading n = n / twoPow (droppedBits n) / 2 * 2 + 1 ∧ n % twoPow (droppedBits n) ≠ 0 := by
      cases marked : sticky n with
      | false => exact .inl (leading_of_not_sticky marked)
      | true => exact .inr ⟨leading_of_sticky marked, mod_ne_zero_of_sticky marked⟩
    have whole : roundUnits n 1 = roundDiv n (twoPow (droppedBits n) * 2048) * gap n := by
      rw [roundUnits, Nat.div_one, Nat.one_mul, gap_of_not_lt small]
    rw [roundUnits_abridge small, whole, Nat.mul_left_inj (Nat.ne_of_gt (gap_pos n))]
    exact roundDiv_eq_iff positive cut

/-- In a number of two words all bits that are cut off are looked at. -/
theorem sticky_of_lt {n : Nat} (small : n < twoPow 128)
    (above : n % twoPow (droppedBits n) ≠ 0) : sticky n = true := by
  have nonzero : n ≠ 0 := by
    rintro rfl
    exact above (Nat.zero_mod _)
  have upper : n.log2 < 128 := (log2_lt_iff nonzero).2 small
  have lower : 64 ≤ n.log2 := by
    refine Nat.le_of_not_lt fun short => above ?_
    rw [droppedBits_of_lt ((log2_lt_iff nonzero).1 short), twoPow_zero, Nat.mod_one]
  have words : n.log2 / wordBits = 1 := by
    unfold wordBits
    omega
  have all : topBits n = droppedBits n := by
    unfold topBits droppedBits wordBits
    omega
  refine List.any_eq_true.2 ⟨0, by simp [words], ?_⟩
  rw [Nat.mul_zero, twoPow_zero, Nat.div_one, all]
  exact bne_iff_ne.2 above

theorem not_overlooked_of_lt {n : Nat} (small : n < twoPow 128) : ¬Overlooked n := by
  rintro ⟨middle, above⟩
  -- The mark makes the leading bits odd.
  rw [leading_of_sticky (sticky_of_lt small above), show twoPow 12 = 4096 from rfl,
    show twoPow 10 = 1024 from rfl] at middle
  omega

/-! ## Conversions that are nearest -/

theorem units_of_nearest_eq_finite {negative sign : Bool} {num den : Nat} {m : Magnitude}
    (same : nearest negative num den = .finite sign m) : roundUnits num den = m.units := by
  unfold nearest at same
  split at same
  next =>
    cases same
    rfl
  next => cases same

theorem nearest_eq_finite_iff {negative : Bool} {num den : Nat} {m : Magnitude} :
    nearest negative num den = .finite negative m ↔ roundUnits num den = m.units := by
  refine ⟨units_of_nearest_eq_finite, fun same => ?_⟩
  have inRange : roundUnits num den < limit := same ▸ m.inRange
  rw [nearest, dif_pos inRange]
  exact congrArg (finite negative) (Magnitude.ext same)

/-- A whole number is converted to the magnitude that it is rounded to, unless it is
overlooked. -/
theorem ofNat_eq_finite_iff {n : Nat} {m : Magnitude}
    (rounded : roundUnits (n * one) 1 = m.units) :
    ofNat n = .finite false m ↔ ¬Overlooked n := by
  have positive : one ≠ 0 := Nat.ne_of_gt (twoPow_pos 1074)
  rw [ofNat, nearest_eq_finite_iff, ← rounded, roundUnits_mul_one, roundUnits_mul_one,
    Nat.mul_left_inj positive, roundUnits_abridge_eq_iff]

end Binary64

end LineCalc
