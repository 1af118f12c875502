import LineCalc.Proofs.Numerals
import LineCalc.Proofs.RationalRounding
import Mathlib.Tactic.Linarith

/-!
# No decimal with fewer digits

The decimals that read as a magnitude lie side by side around it, so if a point of a grid
reads as the magnitude, then the one of the two neighbours that lies between does
(`onGrid?_isSome`).  The finest grid always has such a point (`readsAs_pointBelow_finest`):
it is closer to the magnitude than half a unit, and magnitudes lie a unit apart at least.
Hence the shortest decimal is a neighbour on the first grid with a point that reads as the
magnitude, and every other such point lies on a grid no coarser, unless it is above all
points that are looked at (`le_exponent_shortest`).

A decimal with fewer digits that reads as the magnitude would show a coarser grid with such
a point: its own, or that of the power of ten which then lies between it and the magnitude
(`hasDigits_shortest`).

So the display of a finite result is the numeral of one rational number with the sign of the
result, in both layouts.  The number rounds to the result, and none that does has fewer digits
(`Number.display_shortest`).
-/

namespace LineCalc

open Binary64 (Magnitude IsClosest RoundsTo one leastInfinite roundUnits_one
  roundUnits_mul_right)

/-! ## Magnitudes apart -/

namespace Binary64

namespace Magnitude

variable {m n : Magnitude}

theorem value_eq_div (m : Magnitude) : m.value = m.units / (1 * one : Nat) := by
  rw [value, Nat.one_mul]

theorem value_lt_leastInfinite (m : Magnitude) : m.value < leastInfinite := by
  have kept : RoundsTo false m.value (.finite false m) :=
    (roundsTo_iff Nat.one_pos m.value_eq_div).2 (nearest_units false m)
  cases kept with
  | finite below => exact below

/-- Two magnitudes are a unit apart at least. -/
theorem one_le_abs_sub_value (distinct : m ≠ n) : 1 / (one : Nat) ≤ |m.value - n.value| := by
  have apart : 1 ≤ Nat.dist m.units n.units :=
    Nat.dist_pos_of_ne fun same => distinct (Magnitude.ext same)
  rw [value, value, ← sub_div, abs_div, Nat.abs_cast, ← cast_dist]
  exact div_le_div_of_nonneg_right (Nat.one_le_cast.2 apart) cast_one_pos.le

end Magnitude

/-- Closer than half a unit no other magnitude is as close. -/
theorem isClosest_of_near {q : ℚ} {m : Magnitude} (near : |q - m.value| < 1 / (one : Nat) / 2) :
    IsClosest q m := by
  have closer (other : Magnitude) (distinct : other ≠ m) :
      |q - m.value| < |q - other.value| := by
    have apart := Magnitude.one_le_abs_sub_value distinct.symm
    have triangle := abs_sub_le m.value q other.value
    rw [abs_sub_comm m.value q] at triangle
    linarith
  constructor
  · intro other
    rcases eq_or_ne other m with rfl | distinct
    · exact le_rfl
    · exact (closer other distinct).le
  · intro other distinct same
    exact absurd same (closer other distinct).ne

end Binary64

namespace Decimal

variable {m : Magnitude}

/-! ## Between a decimal and the magnitude -/

theorem value_expansion (m : Magnitude) : (expansion m).value = m.value := by
  have scale : (0 : ℚ) < (tenPow 1074 : Nat) := Nat.cast_pos.2 (tenPow_pos 1074)
  have exponent : (-(-1074 : Int)).toNat = 1074 := rfl
  have noZeros : (-1074 : Int).toNat = 0 := rfl
  rw [value_eq_div, expansion, Magnitude.value]
  dsimp only
  rw [exponent, noZeros, tenPow_zero, Nat.mul_one,
    div_eq_div_iff scale.ne' Binary64.cast_one_pos.ne', ← Nat.cast_mul, ← Nat.cast_mul,
    Nat.mul_assoc, unitDigits_mul_one]

section Between

variable {d other : Decimal} (reads : d.readsAs m = true)
include reads

theorem readsAs_of_le (lower : d.value ≤ other.value) (upper : other.value ≤ m.value) :
    other.readsAs m = true := by
  have exact := readsAs_iff.1 (readsAs_expansion m)
  rw [← value_expansion] at upper
  exact readsAs_iff.2 (Nat.le_antisymm (exact ▸ rounded_le_rounded upper)
    (readsAs_iff.1 reads ▸ rounded_le_rounded lower))

theorem readsAs_of_ge (lower : m.value ≤ other.value) (upper : other.value ≤ d.value) :
    other.readsAs m = true := by
  have exact := readsAs_iff.1 (readsAs_expansion m)
  rw [← value_expansion] at lower
  exact readsAs_iff.2 (Nat.le_antisymm (readsAs_iff.1 reads ▸ rounded_le_rounded upper)
    (exact ▸ rounded_le_rounded lower))

end Between

/-! ## Neighbours -/

/-- The last point of a grid that is not above the magnitude. -/
def pointBelow (m : Magnitude) (e : Int) : Decimal :=
  ⟨m.units * tenPow (-e).toNat / (one * tenPow e.toNat), e⟩

/-- The first point of a grid that is above the magnitude. -/
def pointAbove (m : Magnitude) (e : Int) : Decimal := ⟨(pointBelow m e).digits + 1, e⟩

theorem mem_neighbours {e : Int} {d : Decimal} :
    d ∈ neighbours m e ↔ d = pointBelow m e ∨ d = pointAbove m e := by
  rw [neighbours]
  split
  · rw [List.mem_cons, List.mem_singleton]
    rfl
  · rw [List.mem_cons, List.mem_singleton, or_comm]
    rfl

theorem zpow_pos_ten (e : Int) : (0 : ℚ) < 10 ^ e := zpow_pos (by norm_num) e

theorem value_le_value {n k : Nat} (le : n ≤ k) (e : Int) : value ⟨n, e⟩ ≤ value ⟨k, e⟩ :=
  mul_le_mul_of_nonneg_right (Nat.cast_le.2 le) (zpow_pos_ten e).le

theorem value_le_iff_le_pointBelow {n : Nat} {e : Int} :
    value ⟨n, e⟩ ≤ m.value ↔ n ≤ (pointBelow m e).digits := by
  have scale : (0 : ℚ) < (tenPow (-e).toNat : Nat) := Nat.cast_pos.2 (tenPow_pos _)
  have positive : 0 < one * tenPow e.toNat := Nat.mul_pos (twoPow_pos 1074) (tenPow_pos _)
  rw [value_eq_div, Magnitude.value, div_le_div_iff₀ scale Binary64.cast_one_pos,
    ← Nat.cast_mul, ← Nat.cast_mul, Nat.cast_le, pointBelow, Nat.le_div_iff_mul_le positive,
    Nat.mul_comm one, Nat.mul_assoc]

theorem value_pointBelow_le (m : Magnitude) (e : Int) : (pointBelow m e).value ≤ m.value :=
  value_le_iff_le_pointBelow.2 (Nat.le_refl _)

theorem value_lt_pointAbove (m : Magnitude) (e : Int) : m.value < (pointAbove m e).value :=
  lt_of_not_ge fun le => Nat.not_succ_le_self _ (value_le_iff_le_pointBelow.1 le)

/-- If any point of a grid reads as the magnitude, one of the two neighbours does. -/
theorem onGrid?_isSome {n : Nat} {e : Int} (reads : readsAs ⟨n, e⟩ m = true) :
    (onGrid? m e).isSome := by
  rw [onGrid?, List.find?_isSome]
  rcases le_or_gt (value ⟨n, e⟩) m.value with lower | upper
  · exact ⟨pointBelow m e, mem_neighbours.2 (.inl rfl), readsAs_of_le reads
      (value_le_value (value_le_iff_le_pointBelow.1 lower) e) (value_pointBelow_le m e)⟩
  · have next : (pointBelow m e).digits + 1 ≤ n :=
      Nat.lt_of_not_le fun le => absurd (value_le_iff_le_pointBelow.2 le) upper.not_ge
    exact ⟨pointAbove m e, mem_neighbours.2 (.inr rfl), readsAs_of_ge reads
      (value_lt_pointAbove m e).le (value_le_value next e)⟩

/-! ## The finest grid -/

theorem two_mul_one_lt_tenPow : 2 * one < tenPow 324 := by decide +kernel

/-- On the finest grid the point below a magnitude reads as it. -/
theorem readsAs_pointBelow_finest (m : Magnitude) : (pointBelow m (-324)).readsAs m = true := by
  have below := value_pointBelow_le m (-324)
  have above := value_lt_pointAbove m (-324)
  have step : (pointAbove m (-324)).value = (pointBelow m (-324)).value + 10 ^ (-324 : Int) := by
    rw [value, value, pointAbove, Nat.cast_succ, add_mul, one_mul]
    rfl
  have fine : (10 : ℚ) ^ (-324 : Int) < 1 / (one : Nat) / 2 := by
    have order : ((2 * one : Nat) : ℚ) < (tenPow 324 : Nat) := Nat.cast_lt.2 two_mul_one_lt_tenPow
    rw [cast_tenPow, Nat.cast_mul, Nat.cast_ofNat] at order
    rw [zpow_neg, div_div, mul_comm, ← one_div]
    exact one_div_lt_one_div_of_lt (mul_pos two_pos Binary64.cast_one_pos) order
  have near : |(pointBelow m (-324)).value - m.value| < 1 / (one : Nat) / 2 := by
    rw [abs_of_nonpos (sub_nonpos.2 below), neg_sub]
    linarith
  have rounds : RoundsTo false (pointBelow m (-324)).value (.finite false m) :=
    .finite (lt_of_le_of_lt below m.value_lt_leastInfinite) (Binary64.isClosest_of_near near)
  exact (roundsTo_iff_readsAs.1 rounds).2

theorem finest_le_topExponent (m : Magnitude) : -324 ≤ topExponent m := by
  rw [topExponent]
  omega

/-! ## The first grid -/

section Nonzero

variable (nonzero : m.units ≠ 0)
include nonzero

theorem exponent_shortest_of_onGrid? {e : Int} {point : Decimal}
    (found : onGrid? m e = some point) (finest : -324 ≤ e) (inside : e ≤ topExponent m) :
    e ≤ (shortest m).exponent ∧ onGrid? m (shortest m).exponent = some (shortest m) := by
  obtain ⟨d, first, exponent, here⟩ := exists_firstOnGrid found finest inside
  have same : shortest m = d := by rw [shortest, if_neg nonzero, first, Option.getD_some]
  rw [same]
  exact ⟨exponent, here⟩

/-- The shortest decimal is found on its grid, and this is one of those looked at. -/
theorem onGrid?_shortest :
    -324 ≤ (shortest m).exponent ∧ onGrid? m (shortest m).exponent = some (shortest m) := by
  obtain ⟨point, found⟩ := Option.isSome_iff_exists.1 (onGrid?_isSome (readsAs_pointBelow_finest m))
  exact exponent_shortest_of_onGrid? nonzero found le_rfl (finest_le_topExponent m)

/-- No coarser grid that is looked at has a point that reads as the magnitude. -/
theorem le_exponent_shortest_of_le {n : Nat} {e : Int} (reads : readsAs ⟨n, e⟩ m = true)
    (inside : e ≤ topExponent m) : e ≤ (shortest m).exponent := by
  rcases le_or_gt (-324) e with finest | finer
  · obtain ⟨point, found⟩ := Option.isSome_iff_exists.1 (onGrid?_isSome reads)
    exact (exponent_shortest_of_onGrid? nonzero found finest inside).1
  · exact le_trans finer.le (onGrid?_shortest nonzero).1

/-- A grid that is too coarse to be looked at is a part of the first one. -/
theorem le_exponent_shortest {d : Decimal} (reads : d.readsAs m = true) :
    d.exponent ≤ (shortest m).exponent ∨ topExponent m ≤ (shortest m).exponent := by
  rcases le_or_gt d.exponent (topExponent m) with inside | outside
  · exact .inl (le_exponent_shortest_of_le nonzero reads inside)
  · obtain ⟨k, exponent⟩ := Int.eq_ofNat_of_zero_le (Int.sub_nonneg.2 outside.le)
    have same : value ⟨d.digits * tenPow k, topExponent m⟩ = d.value := by
      rw [value_mul_tenPow, ← exponent, add_sub_cancel]
    rw [← readsAs_congr same] at reads
    exact .inr (le_exponent_shortest_of_le nonzero reads le_rfl)

theorem shortest_mem_neighbours : shortest m ∈ neighbours m (shortest m).exponent := by
  have found := (onGrid?_shortest nonzero).2
  rw [onGrid?] at found
  exact List.mem_of_find?_eq_some found

/-- The point before the shortest decimal is not above the magnitude. -/
theorem le_pointBelow_of_lt_digits {n : Nat} (less : n < (shortest m).digits) :
    value ⟨n, (shortest m).exponent⟩ ≤ m.value := by
  rw [value_le_iff_le_pointBelow]
  have member := mem_neighbours.1 (shortest_mem_neighbours nonzero)
  generalize shortest m = d at less member
  rcases member with below | above
  · rw [← below]
    exact less.le
  · rw [above] at less
    exact Nat.le_of_lt_succ less

theorem digits_ne_zero {d : Decimal} (reads : d.readsAs m = true) : d.digits ≠ 0 := by
  intro none
  have scaled := roundUnits_mul_right 0 1 (tenPow_pos (-d.exponent).toNat)
  rw [roundUnits_one (Nat.dvd_zero _), Nat.one_mul, Nat.zero_mul] at scaled
  rw [readsAs_iff, rounded, none, Nat.zero_mul, Nat.zero_mul, scaled] at reads
  exact nonzero reads.symm

end Nonzero

/-! ## Fewer digits -/

theorem value_one (e : Int) : value ⟨1, e⟩ = 10 ^ e := by rw [value, Nat.cast_one, one_mul]

theorem value_lt_zpow_topExponent (m : Magnitude) : m.value < 10 ^ topExponent m := by
  rw [← value_one]
  refine lt_of_not_ge fun le => ?_
  have some := value_le_iff_le_pointBelow.1 le
  have none : (pointBelow m (topExponent m)).digits = 0 :=
    Nat.div_eq_of_lt (units_lt_tenPow_topExponent m)
  omega

end Decimal

/-- A number is one with at most so many significant digits. -/
def HasDigits (count : Nat) (q : ℚ) : Prop :=
  ∃ d : Decimal, d.digits < tenPow count ∧ d.value = q

namespace Decimal

variable {m : Magnitude}

theorem value_lt_zpow {d : Decimal} {count : Nat} (few : d.digits < tenPow count) :
    d.value < 10 ^ (count + d.exponent) := by
  have digits : (d.digits : ℚ) < (tenPow count : Nat) := Nat.cast_lt.2 few
  rw [cast_tenPow] at digits
  rw [value, zpow_add₀ (by norm_num)]
  exact mul_lt_mul_of_pos_right digits (zpow_pos_ten _)

theorem hasDigits_of_le {d : Decimal} {count : Nat} (some : 0 < count)
    (few : d.digits ≤ tenPow count) : HasDigits count d.value := by
  rcases Nat.eq_or_lt_of_le few with full | less
  · refine ⟨⟨1, d.exponent + count⟩, Nat.one_lt_pow (Nat.ne_of_gt some) (by decide), ?_⟩
    rw [← value_mul_tenPow, Nat.one_mul, ← full]
  · exact ⟨d, less, rfl⟩

/-- The shortest decimal of a magnitude has hardly more digits than any that reads as it. -/
theorem digits_shortest_le (nonzero : m.units ≠ 0) {d : Decimal} (reads : d.readsAs m = true)
    {count : Nat} (some : 0 < count) (few : d.digits < tenPow count) :
    (shortest m).digits ≤ tenPow count := by
  refine Nat.le_of_not_lt fun large => ?_
  -- The power of ten that has one digit too many on the grid of the shortest decimal.
  have power := le_pointBelow_of_lt_digits nonzero large
  rw [← Nat.one_mul (tenPow count), value_mul_tenPow] at power
  have inside : (shortest m).exponent + count < topExponent m := by
    have order := lt_of_le_of_lt power (value_lt_zpow_topExponent m)
    rw [value_one] at order
    exact (zpow_lt_zpow_iff_right₀ (by norm_num)).1 order
  rcases le_or_gt d.value (value ⟨1, (shortest m).exponent + count⟩) with lower | upper
  · have coarser := le_exponent_shortest nonzero (readsAs_of_le reads lower power)
    dsimp only at coarser
    omega
  · have coarser := le_exponent_shortest nonzero reads
    have order := lt_trans upper (value_lt_zpow few)
    rw [value_one, zpow_lt_zpow_iff_right₀ (by norm_num)] at order
    omega

/-- If a decimal with at most so many digits reads as a magnitude, the shortest one is a
number with at most so many digits. -/
theorem hasDigits_shortest {d : Decimal} (reads : d.readsAs m = true) {count : Nat}
    (few : d.digits < tenPow count) : HasDigits count (shortest m).value := by
  by_cases zero : m.units = 0
  · rw [shortest, if_pos zero]
    exact ⟨⟨0, 0⟩, tenPow_pos count, rfl⟩
  · have some : 0 < count := by
      refine Nat.pos_of_ne_zero ?_
      rintro rfl
      exact digits_ne_zero zero reads (Nat.lt_one_iff.1 few)
    exact hasDigits_of_le some (digits_shortest_le zero reads some few)

end Decimal

/-! ## Displays -/

namespace Number

/-- The display of a finite result is the numeral of one number with the sign of the result,
whether the result is marked as real or not.  The number rounds to the result and to nothing
else, and no number with fewer significant digits rounds to it. -/
theorem display_shortest (negative : Bool) (m : Magnitude) : ∃ size : ℚ,
    (∀ real sign other, Numeral (display ⟨.finite negative m, real⟩).toList sign other ↔
      sign = negative ∧ other = size) ∧
    (∀ x, RoundsTo negative size x ↔ x = .finite negative m) ∧
    ∀ sign other count, RoundsTo sign other (.finite negative m) → HasDigits count other →
      HasDigits count size := by
  refine ⟨(Decimal.shortest m).value, ?_, ?_, ?_⟩
  · intro real sign other
    have numeral := numeral_display negative m real
    constructor
    · intro another
      exact another.unique numeral
    · rintro ⟨rfl, rfl⟩
      exact numeral
  · intro x
    rw [Decimal.roundsTo_iff, Decimal.toBinary64_of_readsAs (Decimal.readsAs_shortest m)]
    exact eq_comm
  · rintro sign _ count rounds ⟨d, few, rfl⟩
    exact Decimal.hasDigits_shortest (Decimal.roundsTo_iff_readsAs.1 rounds).2 few

end Number

end LineCalc
