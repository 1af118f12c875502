/-!
# Powers of two and ten

The scales of binary and decimal numbers.  They are kept under names of their
own, so that a scale such as `2 ^ 1074` stays folded in a goal until a lemma
below is used.
-/

namespace LineCalc

/-! ## Powers of two -/

/-- The power `2 ^ e`. -/
def twoPow (e : Nat) : Nat := Nat.pow 2 e

@[simp] theorem twoPow_zero : twoPow 0 = 1 := rfl

theorem twoPow_pos (e : Nat) : 0 < twoPow e := Nat.two_pow_pos e

theorem twoPow_add (d e : Nat) : twoPow (d + e) = twoPow d * twoPow e := Nat.pow_add 2 d e

theorem twoPow_le_twoPow {d e : Nat} (le : d ≤ e) : twoPow d ≤ twoPow e :=
  Nat.pow_le_pow_right (by decide) le

theorem twoPow_lt_twoPow {d e : Nat} (lt : d < e) : twoPow d < twoPow e :=
  Nat.pow_lt_pow_right (by decide) lt

theorem twoPow_dvd_twoPow {d e : Nat} (le : d ≤ e) : twoPow d ∣ twoPow e :=
  Nat.pow_dvd_pow 2 le

/-- The binary logarithm is the last exponent whose power is not above the
number. -/
theorem log2_lt_iff {n e : Nat} (positive : n ≠ 0) : n.log2 < e ↔ n < twoPow e :=
  Nat.log2_lt positive

theorem le_log2_iff {n e : Nat} (positive : n ≠ 0) : e ≤ n.log2 ↔ twoPow e ≤ n :=
  Nat.le_log2 positive

theorem lt_twoPow_log2 (n : Nat) : n < twoPow (n.log2 + 1) := Nat.lt_log2_self

@[simp] theorem log2_twoPow (e : Nat) : (twoPow e).log2 = e := Nat.log2_two_pow

/-! ## Powers of ten -/

/-- The power `10 ^ e`. -/
def tenPow (e : Nat) : Nat := Nat.pow 10 e

@[simp] theorem tenPow_zero : tenPow 0 = 1 := rfl

theorem tenPow_pos (e : Nat) : 0 < tenPow e := Nat.pow_pos (by decide)

theorem tenPow_le_tenPow {d e : Nat} (le : d ≤ e) : tenPow d ≤ tenPow e :=
  Nat.pow_le_pow_right (by decide) le

theorem tenPow_add (d e : Nat) : tenPow (d + e) = tenPow d * tenPow e := Nat.pow_add 10 d e

end LineCalc
