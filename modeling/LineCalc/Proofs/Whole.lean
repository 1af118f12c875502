import LineCalc.Binary64.Whole
import LineCalc.Text.Digits

/-!
# Whole numbers that are zero

Rounding does not lose a whole number altogether: only zero is converted to zero
(`isZero_ofNat`), and only zeros spell zero (`eq_zero_of_digitsValue`).
-/

namespace LineCalc

namespace Binary64

theorem gap_le {n : Nat} (positive : 0 < n) : gap n ≤ n := by
  have nonzero : n ≠ 0 := Nat.pos_iff_ne_zero.1 positive
  have power : twoPow n.log2 ≤ n := Nat.log2_self_le nonzero
  exact Nat.le_trans (twoPow_le_twoPow (Nat.sub_le n.log2 52)) power

theorem roundUnits_one_eq_zero_iff {n : Nat} : roundUnits n 1 = 0 ↔ n = 0 := by
  constructor
  · intro rounded
    refine Decidable.byContradiction fun nonzero => ?_
    have fits := gap_le (Nat.pos_of_ne_zero nonzero)
    have quotient : 0 < n / gap n := Nat.div_pos fits (gap_pos n)
    have kept := le_roundDiv n (gap n)
    have positive : 0 < roundDiv n (gap n) * gap n :=
      Nat.mul_pos (Nat.lt_of_lt_of_le quotient kept) (gap_pos n)
    rw [roundUnits, Nat.div_one, Nat.one_mul] at rounded
    omega
  · rintro rfl
    exact roundUnits_one (Nat.dvd_zero _)

theorem isZero_nearest_one {negative : Bool} {n : Nat} :
    (nearest negative n 1).isZero = true ↔ n = 0 := by
  rw [← roundUnits_one_eq_zero_iff]
  unfold nearest
  split
  next => simp [isZero]
  next large =>
    have := limit_pos
    simp only [isZero, Bool.false_eq_true, false_iff]
    omega

theorem isZero_ofNat {n : Nat} : (ofNat n).isZero = true ↔ n = 0 := by
  have scale : one ≠ 0 := Nat.pos_iff_ne_zero.1 (twoPow_pos 1074)
  rw [ofNat, isZero_nearest_one, Nat.mul_eq_zero, abridge_eq_zero_iff]
  exact ⟨fun zero => zero.resolve_right scale, .inl⟩

end Binary64

/-! ## Digits -/

theorem eq_zero_of_isDigit {c : Char} (digit : c.isDigit = true)
    (zero : c.toNat - '0'.toNat = 0) : c = '0' := by
  have least : '0'.toNat ≤ c.toNat := by
    simp only [Char.isDigit, ge_iff_le, Bool.and_eq_true, decide_eq_true_eq,
      UInt32.le_iff_toNat_le] at digit
    exact digit.1
  exact Char.toNat_inj.1 (by omega)

theorem eq_zero_of_ofDigitChars {digits : List Char} (all : ∀ c ∈ digits, c.isDigit = true)
    {accumulator : Nat} (zero : Nat.ofDigitChars 10 digits accumulator = 0) :
    accumulator = 0 ∧ ∀ c ∈ digits, c = '0' := by
  induction digits generalizing accumulator with
  | nil => exact ⟨by simpa using zero, List.forall_mem_nil _⟩
  | cons c digits induction =>
    obtain ⟨first, others⟩ := List.forall_mem_cons.1 all
    rw [Nat.ofDigitChars_cons] at zero
    obtain ⟨sum, later⟩ := induction others zero
    refine ⟨by omega, List.forall_mem_cons.2 ⟨eq_zero_of_isDigit first ?_, later⟩⟩
    omega

theorem eq_zero_of_digitsValue {digits : List Char} (all : ∀ c ∈ digits, c.isDigit = true)
    (zero : digitsValue digits = 0) : ∀ c ∈ digits, c = '0' :=
  (eq_zero_of_ofDigitChars all zero).2

theorem digitsValue_of_zeros {zeros : List Char} (zero : ∀ c ∈ zeros, c = '0') :
    digitsValue zeros = 0 := by
  rw [List.eq_replicate_of_mem zero, digitsValue, Nat.ofDigitChars_replicate_zero, Nat.mul_zero]

end LineCalc
