import LineCalc.Binary64.Bits
import LineCalc.Proofs.WholeDecimals
import LineCalc.Proofs.WholeResults

/-!
# Results typed back in

A result that no division went into is shown as a run of digits, after a minus if it is
negative, and a run of digits is a line again.  A line cannot start with a minus, so a
negative result is typed back as zero minus its digits.

The digits round to the result, but a line of digits is converted, and the conversion
overlooks some numbers.  A result comes back just if its digits are not overlooked and it is
no negative zero (`evaluate_retyped_iff`).  A number that is overlooked has 39 digits or more.
-/

namespace LineCalc

open Binary64 (Magnitude Overlooked ofNat ofNat_eq_finite_iff not_overlooked_of_lt signChars)

/-! ## Lines of digits -/

theorem Number.extend_sub (x : Binary64) (n : Nat) :
    Number.extend ⟨x, false⟩ .sub n = ⟨x - ofNat n, false⟩ := rfl

namespace Spells

variable {text : List Char} {n : Nat}

theorem itemsFrom_eq (spells : Spells text n) (position : Nat) :
    itemsFrom position text = [⟨.integer n, position⟩] := by
  have ends : startsWithDigit [] = false := rfl
  have run := itemsFrom_digits_append spells.nonempty spells.digit ends position
  rw [List.append_nil, ← Lexeme.digitsValue_eq_decimalValue, spells.value] at run
  exact run

/-- A run of digits comes to the number that it spells. -/
theorem evaluate_eq (spells : Spells text n) : evaluate text = .ok ⟨ofNat n, false⟩ := by
  have ends : startsWithOperator [] = false := rfl
  rw [evaluate_eq_walk, items, spells.itemsFrom_eq, walk,
    walkOperators_of_not_startsWithOperator ends]

/-- Zero minus a run of digits comes to the difference. -/
theorem evaluate_zero_minus (spells : Spells text n) :
    evaluate ('0' :: '-' :: text) = .ok ⟨ofNat 0 - ofNat n, false⟩ := by
  have zero : Spells ['0'] 0 := ⟨List.cons_ne_nil _ _, List.all_eq_true.1 rfl, rfl⟩
  have all : items ('0' :: '-' :: text) =
      [⟨.integer 0, 1⟩, ⟨.operator .sub, 2⟩, ⟨.integer n, 3⟩] := by
    have apart : Separate ['0'] ('-' :: text) := fun _ => rfl
    have cut := itemsFrom_append apart 1
    rw [zero.itemsFrom_eq, itemsFrom_cons_single rfl rfl, spells.itemsFrom_eq] at cut
    exact cut
  have ends : startsWithOperator [] = false := rfl
  have differs : ¬(Operator.sub = .div ∧ (ofNat n).isZero = true) := fun refused =>
    nomatch refused.1
  rw [evaluate_eq_walk, all, walk, walkOperators, if_neg differs, Number.extend_sub,
    walkOperators_of_not_startsWithOperator ends]

/-- A number that is overlooked has at least 39 digits. -/
theorem not_overlooked_of_length_le (spells : Spells text n) (short : text.length ≤ 38) :
    ¬Overlooked n := by
  have bound : tenPow 38 < twoPow 128 := by decide +kernel
  have small := Nat.lt_of_lt_of_le spells.lt_tenPow_length (tenPow_le_tenPow short)
  exact not_overlooked_of_lt (Nat.lt_trans small bound)

end Spells

/-! ## Zero minus a number -/

namespace Binary64

theorem ofNat_zero : ofNat 0 = zero := by
  rw [ofNat, abridge_eq_zero_iff.2 rfl, Nat.zero_mul]
  exact nearest_units false .zero

theorem ofNat_eq (n : Nat) : ofNat n = .infinite false ∨ ∃ m, ofNat n = .finite false m := by
  rw [ofNat, nearest]
  split
  next => exact .inr ⟨_, rfl⟩
  next => exact .inl rfl

theorem zero_sub_finite (m : Magnitude) :
    zero - finite false m = if m.units = 0 then zero else finite true m := by
  change add zero (finite true m) = _
  have total : Magnitude.zero.signed false + m.signed true = -(m.units : Int) := Int.zero_add _
  rw [zero, add, total]
  split
  next none => rw [if_pos (by omega)]; rfl
  next some =>
    have nonzero : m.units ≠ 0 := by omega
    have negative : -(m.units : Int) < 0 := by omega
    rw [if_neg nonzero, Int.natAbs_neg, Int.natAbs_natCast, decide_eq_true negative]
    exact nearest_units true m

theorem zero_sub_finite_eq_iff {k m : Magnitude} :
    zero - finite false k = .finite true m ↔ k = m ∧ m.units ≠ 0 := by
  rw [zero_sub_finite]
  split
  next none =>
    constructor
    · intro same
      cases same
    · rintro ⟨rfl, nonzero⟩
      exact absurd none nonzero
  next nonzero =>
    constructor
    · intro same
      cases same
      exact ⟨rfl, nonzero⟩
    · rintro ⟨rfl, -⟩
      rfl

/-- Zero minus a converted number is the same number with a minus, but never a negative
zero. -/
theorem zero_sub_ofNat_eq_iff {n : Nat} {m : Magnitude} :
    ofNat 0 - ofNat n = .finite true m ↔ ofNat n = .finite false m ∧ m.units ≠ 0 := by
  rw [ofNat_zero]
  rcases ofNat_eq n with infinite | ⟨k, same⟩
  · rw [infinite]
    constructor
    · intro same
      cases same
    · intro same
      cases same.1
  · rw [same, zero_sub_finite_eq_iff, Binary64.finite.injEq]
    simp

end Binary64

/-! ## Results -/

/-- What is typed to enter a number that is shown: one with a minus goes after a zero. -/
def retyped (negative : Bool) (display : List Char) : List Char :=
  if negative then '0' :: display else display

theorem ok_integer_eq_iff {x y : Binary64} :
    (Except.ok ⟨x, false⟩ : Except LineError Number) = .ok ⟨y, false⟩ ↔ x = y := by
  constructor
  · intro same
    cases same
    rfl
  · rintro rfl
    rfl

/-- A finite result that no division went into is shown as digits, after a minus if it is
negative.  Typed back in it comes to itself just if the digits are not overlooked and it
is no negative zero; 38 digits or less are never overlooked. -/
theorem evaluate_retyped_iff {line : List Char} {number : Number} {negative : Bool}
    {m : Magnitude} (evaluated : evaluate line = .ok number) (integer : number.real = false)
    (finite : number.value = .finite negative m) :
    ∃ digits n, Spells digits n ∧ number.write = signChars negative ++ digits ∧
      (evaluate (retyped negative number.write) = .ok number ↔
        ¬Overlooked n ∧ (negative = true → m.units ≠ 0)) ∧
      (digits.length ≤ 38 → ¬Overlooked n) := by
  have whole := isWhole_of_evaluate evaluated integer negative m finite
  obtain ⟨n, spells, rounded⟩ := exists_spells_shortest whole
  have converted := ofNat_eq_finite_iff rounded
  obtain ⟨value, real⟩ := number
  dsimp only at integer finite
  subst integer finite
  have display : Number.write ⟨.finite negative m, false⟩ =
      signChars negative ++ (Decimal.shortest m).write .integer := rfl
  refine ⟨_, n, spells, display, ?_, spells.not_overlooked_of_length_le⟩
  rw [display]
  cases negative with
  | false =>
    have typed : evaluate (retyped false (signChars false ++ (Decimal.shortest m).write .integer)) =
      .ok ⟨ofNat n, false⟩ := spells.evaluate_eq
    rw [typed, ok_integer_eq_iff, converted]
    simp
  | true =>
    have typed : evaluate (retyped true (signChars true ++ (Decimal.shortest m).write .integer)) =
      .ok ⟨ofNat 0 - ofNat n, false⟩ := spells.evaluate_zero_minus
    rw [typed, ok_integer_eq_iff, Binary64.zero_sub_ofNat_eq_iff, converted]
    simp

/-- The magnitude `2 ^ 64`. -/
def twoPow64 : Magnitude where
  units := twoPow 1138
  inRange := twoPow_lt_twoPow (by decide)
  onGrid := by
    rw [Binary64.gap, log2_twoPow]
    exact twoPow_dvd_twoPow (by decide)

/-- The result `-2 ^ 64`. -/
def minusTwoPow64 : Number := ⟨.finite true twoPow64, false⟩

theorem evaluate_retyped_iff_minusTwoPow64 :
    evaluate "3 - 18446744073709551616".toList = .ok minusTwoPow64 ∧
      minusTwoPow64.write = "-18446744073709552000".toList ∧
      evaluate "0-18446744073709552000".toList = .ok minusTwoPow64 := by
  have evaluated : evaluate "3 - 18446744073709551616".toList = .ok minusTwoPow64 := by
    decide +kernel
  have display : minusTwoPow64.write = "-18446744073709552000".toList := by decide +kernel
  have finite : minusTwoPow64.value = .finite true twoPow64 := rfl
  obtain ⟨digits, n, -, written, comesBack, short⟩ := evaluate_retyped_iff evaluated rfl finite
  have length : digits.length = 20 := by
    have same := congrArg List.length (written.symm.trans display)
    exact Nat.succ.inj same
  have few : digits.length ≤ 38 := by omega
  have nonzero : twoPow64.units ≠ 0 := by decide +kernel
  rw [display] at comesBack
  exact ⟨evaluated, display, comesBack.2 ⟨short few, fun _ => nonzero⟩⟩

/-- The digits of this result stand for a number just above the middle of two neighbours, and
come to the lower one. -/
theorem evaluate_retyped_overlooked :
    evaluate "340282366922570437761990630903298129920".toList =
        .ok ⟨.ofBits 0x47f000000000545f, false⟩ ∧
      Number.write ⟨.ofBits 0x47f000000000545f, false⟩ =
        "340282366922570400000000000000000000000".toList ∧
      evaluate "340282366922570400000000000000000000000".toList =
        .ok ⟨.ofBits 0x47f000000000545e, false⟩ ∧
      Binary64.ofBits 0x47f000000000545e ≠ .ofBits 0x47f000000000545f := by
  decide +kernel

end LineCalc
