import LineCalc.Proofs.WholeDecimals
import LineCalc.Proofs.WholeResults

/-!
# Exact integers

Every whole number up to `2 ^ 53` is a binary64 number, so as long as the integers of a
line and all results on the way stay in that range nothing is rounded.  `ExactWithin` says
what exact arithmetic makes of a line: an operator takes a whole number to a whole number,
and a division has to come out even.  Each operator on binary64 numbers then agrees with it
(`Equals.combine`), and so does the whole line (`ExactWithin.applyAll_equals`).

A result other than zero is shown with all its digits, and with a point and a zero after
them if a division went into it.
-/

namespace LineCalc

/-! ## Exact arithmetic -/

/-- What an operator makes of whole numbers, unless that is no whole number. -/
def Operator.onIntegers? (op : Operator) (left : Int) (right : Nat) : Option Int :=
  match op with
  | add => some (left + right)
  | sub => some (left - right)
  | mul => some (left * right)
  | div => if right ≠ 0 ∧ (right : Int) ∣ left then some (left / right) else none

/-- Operators applied to `total` in exact arithmetic come to `result`.  All integers and
results on the way are whole numbers between `-bound` and `bound`. -/
inductive ExactWithin (bound : Nat) : Int → List Application → Int → Prop where
  | nil {total : Int} (fits : total.natAbs ≤ bound) : ExactWithin bound total [] total
  | cons {total next result : Int} {a : Application} {rest : List Application}
      (fits : total.natAbs ≤ bound) (operand : a.operand ≤ bound)
      (step : a.op.onIntegers? total a.operand = some next)
      (later : ExactWithin bound next rest result) : ExactWithin bound total (a :: rest) result

theorem ExactWithin.fits {bound : Nat} {total result : Int} {applications : List Application}
    (exact : ExactWithin bound total applications result) : total.natAbs ≤ bound := by
  cases exact with
  | nil fits => exact fits
  | cons fits => exact fits

theorem ExactWithin.result_fits {bound : Nat} {total result : Int}
    {applications : List Application} (exact : ExactWithin bound total applications result) :
    result.natAbs ≤ bound := by
  induction exact with
  | nil fits => exact fits
  | cons _ _ _ _ induction => exact induction

namespace Binary64

/-! ## Numbers that are whole -/

/-- A number is equal to a whole number; a zero of either sign is equal to 0. -/
def Equals (x : Binary64) (k : Int) : Prop :=
  ∃ (negative : Bool) (m : Magnitude), x = .finite negative m ∧ m.signed negative = k * one

theorem natAbs_signed (negative : Bool) (m : Magnitude) :
    (m.signed negative).natAbs = m.units := by
  rw [Magnitude.signed]
  split <;> omega

theorem units_of_signed {negative : Bool} {m : Magnitude} {k : Int}
    (same : m.signed negative = k * one) : m.units = k.natAbs * one := by
  rw [← natAbs_signed negative m, same, Int.natAbs_mul, Int.natAbs_natCast]

theorem signed_of_units {m : Magnitude} {k : Int} (units : m.units = k.natAbs) :
    m.signed (decide (k < 0)) = k := by
  rw [Magnitude.signed, units]
  by_cases negative : k < 0
  · rw [decide_eq_true negative, if_pos rfl]
    omega
  · rw [decide_eq_false negative, if_neg Bool.false_ne_true]
    omega

/-- Magnitudes in proportion with the same sign are in proportion with it. -/
theorem signed_mul {a b : Magnitude} {n : Nat} (units : b.units = a.units * n)
    (negative : Bool) : b.signed negative = a.signed negative * n := by
  rw [Magnitude.signed, Magnitude.signed, units]
  split
  · rw [Int.natCast_mul, Int.neg_mul]
  · rw [Int.natCast_mul]

theorem signed_not (m : Magnitude) (negative : Bool) :
    m.signed (!negative) = -m.signed negative := by
  cases negative <;> simp [Magnitude.signed]

theorem eq_decide_of_signed {negative : Bool} {m : Magnitude} {k : Int}
    (same : m.signed negative = k * one) (nonzero : k ≠ 0) : negative = decide (k < 0) := by
  have scale : (0 : Int) < one := Int.natCast_pos.2 (twoPow_pos 1074)
  cases negative with
  | false =>
    have units : (m.units : Int) = k * one := same
    rw [eq_comm, decide_eq_false_iff_not]
    intro below
    have := Int.mul_neg_of_neg_of_pos below scale
    omega
  | true =>
    have units : -(m.units : Int) = k * one := same
    rw [eq_comm, decide_eq_true_eq]
    refine Decidable.byContradiction fun below => ?_
    have above : 0 < k := by omega
    have := Int.mul_pos above scale
    omega

theorem twoPow_mul_one_lt_limit : twoPow 53 * one < limit := by
  rw [one, ← twoPow_add]
  exact twoPow_lt_twoPow (by decide)

/-- Up to `2 ^ 53` a whole number is not rounded. -/
theorem exists_nearest_eq {n : Nat} (fits : n ≤ twoPow 53) (negative : Bool) :
    ∃ m : Magnitude, nearest negative (n * one) 1 = .finite negative m ∧ m.units = n * one := by
  have inRange : n * one < limit :=
    Nat.lt_of_le_of_lt (Nat.mul_le_mul_right one fits) twoPow_mul_one_lt_limit
  let m : Magnitude := ⟨n * one, inRange, gap_dvd_mul_twoPow fits 1074⟩
  exact ⟨m, nearest_units negative m, rfl⟩

theorem exists_ofNat_eq {n : Nat} (fits : n ≤ twoPow 53) :
    ∃ m : Magnitude, ofNat n = .finite false m ∧ m.units = n * one := by
  have small : n < twoPow wordBits := Nat.lt_of_le_of_lt fits (twoPow_lt_twoPow (by decide))
  rw [ofNat_of_lt small]
  exact exists_nearest_eq fits false

theorem equals_ofNat {n : Nat} (fits : n ≤ twoPow 53) : Equals (ofNat n) n := by
  obtain ⟨m, same, units⟩ := exists_ofNat_eq fits
  refine ⟨false, m, same, ?_⟩
  rw [Magnitude.signed, if_neg Bool.false_ne_true, units, Int.natCast_mul]

/-! ## Operators on whole numbers -/

variable {x : Binary64} {k : Int} {n : Nat}

theorem equals_sum {a b : Magnitude} {s t : Bool} {j : Int} (first : a.signed s = k * one)
    (second : b.signed t = j * one) (fits : (k + j).natAbs ≤ twoPow 53) :
    Equals (.finite s a + .finite t b) (k + j) := by
  have total : a.signed s + b.signed t = (k + j) * one := by rw [first, second, Int.add_mul]
  change Equals (add (.finite s a) (.finite t b)) (k + j)
  rw [add]
  split
  next zero => exact ⟨_, .zero, rfl, by rw [← total, zero]; cases s <;> cases t <;> rfl⟩
  next =>
    obtain ⟨m, rounded, units⟩ :=
      exists_nearest_eq fits (decide (a.signed s + b.signed t < 0))
    have size : (a.signed s + b.signed t).natAbs = (k + j).natAbs * one := by
      rw [total, Int.natAbs_mul, Int.natAbs_natCast]
    rw [← size] at rounded units
    exact ⟨_, m, rounded, (signed_of_units units).trans total⟩

theorem Equals.add_ofNat (whole : Equals x k) (operand : n ≤ twoPow 53)
    (fits : (k + n).natAbs ≤ twoPow 53) : Equals (x + ofNat n) (k + n) := by
  obtain ⟨s, a, rfl, first⟩ := whole
  obtain ⟨t, b, same, second⟩ := equals_ofNat operand
  rw [same]
  exact equals_sum first second fits

theorem Equals.sub_ofNat (whole : Equals x k) (operand : n ≤ twoPow 53)
    (fits : (k - n).natAbs ≤ twoPow 53) : Equals (x - ofNat n) (k - n) := by
  obtain ⟨s, a, rfl, first⟩ := whole
  obtain ⟨t, b, same, second⟩ := equals_ofNat operand
  rw [same]
  have opposite : b.signed (!t) = -(n : Int) * one := by
    rw [signed_not, second, Int.neg_mul]
  rw [Int.sub_eq_add_neg] at fits ⊢
  exact equals_sum first opposite fits

theorem Equals.mul_ofNat (whole : Equals x k) (operand : n ≤ twoPow 53)
    (fits : (k * n).natAbs ≤ twoPow 53) : Equals (x * ofNat n) (k * n) := by
  obtain ⟨s, a, rfl, first⟩ := whole
  obtain ⟨b, same, units⟩ := exists_ofNat_eq operand
  have size : a.units * n = (k * n).natAbs * one := by
    rw [units_of_signed first, Int.natAbs_mul, Int.natAbs_natCast, Nat.mul_right_comm]
  obtain ⟨m, rounded, product⟩ := exists_nearest_eq fits s
  have result : mul (.finite s a) (.finite false b) = .finite s m := by
    rw [mul, Bool.xor_false, units, ← Nat.mul_assoc, nearest_mul_one, size, rounded]
  rw [same]
  refine ⟨s, m, result, ?_⟩
  rw [signed_mul (product.trans size.symm), first, Int.mul_right_comm]

theorem Equals.div_ofNat (whole : Equals x k) (operand : n ≤ twoPow 53) (nonzero : n ≠ 0)
    (even : (n : Int) ∣ k) (fits : (k / n).natAbs ≤ twoPow 53) :
    Equals (x / ofNat n) (k / n) := by
  obtain ⟨s, a, rfl, first⟩ := whole
  obtain ⟨b, same, units⟩ := exists_ofNat_eq operand
  obtain ⟨c, rfl⟩ := even
  have positive : (n : Int) ≠ 0 := Int.natCast_ne_zero.2 nonzero
  rw [Int.mul_ediv_cancel_left c positive] at fits ⊢
  obtain ⟨m, rounded, quotient⟩ := exists_nearest_eq fits s
  have size : a.units = m.units * n := by
    rw [units_of_signed first, quotient, Int.natAbs_mul, Int.natAbs_natCast, Nat.mul_comm n,
      Nat.mul_right_comm]
  have scale : 0 < one := twoPow_pos 1074
  have some : b.units ≠ 0 := by
    rw [units]
    exact Nat.mul_ne_zero nonzero (Nat.ne_of_gt scale)
  have result : div (.finite s a) (.finite false b) = .finite s m := by
    have cancelled := nearest_mul_right s m.units 1 (Nat.pos_of_ne_zero nonzero)
    rw [Nat.one_mul] at cancelled
    rw [div, if_neg some, Bool.xor_false, units, nearest_mul_right s a.units n scale, size,
      cancelled, quotient, rounded]
  rw [same]
  refine ⟨s, m, result, ?_⟩
  have product := signed_mul size s
  rw [first, Int.mul_assoc, Int.mul_comm (n : Int)] at product
  exact (Int.eq_of_mul_eq_mul_right positive product).symm

/-- An operator agrees with exact arithmetic. -/
theorem Equals.combine {op : Operator} {next : Int} (whole : Equals x k)
    (operand : n ≤ twoPow 53) (step : op.onIntegers? k n = some next)
    (fits : next.natAbs ≤ twoPow 53) : Equals (op.combine x (ofNat n)) next := by
  cases op with
  | add =>
    cases step
    exact whole.add_ofNat operand fits
  | sub =>
    cases step
    exact whole.sub_ofNat operand fits
  | mul =>
    cases step
    exact whole.mul_ofNat operand fits
  | div =>
    rw [Operator.onIntegers?] at step
    split at step
    next possible =>
      cases step
      exact whole.div_ofNat operand possible.1 possible.2 fits
    next => cases step

end Binary64

/-! ## Lines -/

open Binary64 (Equals)

/-- A division that comes out even is not by zero. -/
theorem not_dividesByZero_of_onIntegers? {a : Application} {total next : Int}
    (step : a.op.onIntegers? total a.operand = some next) : a.dividesByZero = false := by
  rw [Application.dividesByZero_eq_false_iff, Binary64.isZero_ofNat]
  rintro ⟨division, zero⟩
  rw [division, zero, Operator.onIntegers?, if_neg fun possible => possible.1 rfl] at step
  cases step

theorem ExactWithin.defined {bound : Nat} {total result : Int} {applications : List Application}
    (exact : ExactWithin bound total applications result) :
    ∀ a ∈ applications, a.dividesByZero = false := by
  induction exact with
  | nil => exact List.forall_mem_nil _
  | cons _ _ step _ induction =>
    exact List.forall_mem_cons.2 ⟨not_dividesByZero_of_onIntegers? step, induction⟩

/-- All operators together agree with exact arithmetic. -/
theorem ExactWithin.applyAll_equals {total result : Int} {applications : List Application}
    (exact : ExactWithin (twoPow 53) total applications result) {number : Number}
    (whole : Equals number.value total) : Equals (applyAll number applications).value result := by
  induction exact generalizing number with
  | nil => exact whole
  | cons _ operand step later induction =>
    exact induction (whole.combine operand step later.fits)

/-- A result other than zero is shown as its sign and all its digits. -/
theorem Binary64.Equals.write_eq {x : Binary64} {k : Int} (whole : Equals x k)
    (fits : k.natAbs ≤ twoPow 53) (nonzero : k ≠ 0) :
    x.write .integer = intDigits k ∧ x.write .real = intDigits k ++ ['.', '0'] := by
  obtain ⟨s, m, rfl, same⟩ := whole
  have units := units_of_signed same
  obtain ⟨integer, real⟩ := Decimal.write_of_small units fits (Int.natAbs_ne_zero.2 nonzero)
  have sign : signChars s ++ natDigits k.natAbs = intDigits k := by
    rw [eq_decide_of_signed same nonzero, signChars, intDigits]
    by_cases negative : k < 0
    · rw [if_pos (decide_eq_true negative), if_pos negative, List.singleton_append]
    · rw [decide_eq_false negative, if_neg Bool.false_ne_true, if_neg negative, List.nil_append]
  constructor
  · rw [write, integer, sign]
  · rw [write, real, ← List.append_assoc, sign]

/-- As long as all integers and all results in exact arithmetic are whole numbers between
`-2 ^ 53` and `2 ^ 53`, the line comes to the exact result.  Unless that is zero, it is
shown as an integer, with a point and a zero after it if a division went into it. -/
theorem evaluate_exact {line : List Char} {first : Nat} {applications : List Application}
    {rest : List Item} {result : Int} (opens : OpensWith line first applications rest)
    (exact : ExactWithin (twoPow 53) first applications result) :
    ∃ number, evaluate line = .ok number ∧ Equals number.value result ∧
      (result ≠ 0 → (∀ a ∈ applications, a.op ≠ .div) →
        number.display = String.ofList (intDigits result)) ∧
      (result ≠ 0 → (∃ a ∈ applications, a.op = .div) →
        number.display = String.ofList (intDigits result ++ ['.', '0'])) := by
  have whole : Equals (applyAll ⟨.ofNat first, false⟩ applications).value result := by
    refine exact.applyAll_equals ?_
    dsimp only
    exact Binary64.equals_ofNat exact.fits
  have integer := real_applyAll_eq_false_iff (.ofNat first) applications
  have real := real_applyAll ⟨.ofNat first, false⟩ applications
  have evaluated := opens.evaluate_eq exact.defined
  generalize applyAll ⟨.ofNat first, false⟩ applications = number at *
  refine ⟨number, evaluated, whole, fun nonzero noDivision => ?_, fun nonzero division => ?_⟩
  · rw [Number.display, Number.write, Number.layout, integer.2 noDivision]
    exact congrArg String.ofList (whole.write_eq exact.result_fits nonzero).1
  · rw [Number.display, Number.write, Number.layout, real.2 (.inr division)]
    exact congrArg String.ofList (whole.write_eq exact.result_fits nonzero).2

/-- A sum at the bound, halved, with an integer left over. -/
theorem evaluate_exact_bound :
    OpensWith "9007199254740991+1/2 7".toList 9007199254740991
        [⟨.add, 17, 1, 18⟩, ⟨.div, 19, 2, 20⟩] [⟨.integer 7, 22⟩] ∧
      ExactWithin (twoPow 53) 9007199254740991
        [⟨.add, 17, 1, 18⟩, ⟨.div, 19, 2, 20⟩] 4503599627370496 ∧
      ∃ number, evaluate "9007199254740991+1/2 7".toList = .ok number ∧
        Equals number.value 4503599627370496 ∧
        number.display = "4503599627370496.0" := by
  have opens : OpensWith "9007199254740991+1/2 7".toList 9007199254740991
      [⟨.add, 17, 1, 18⟩, ⟨.div, 19, 2, 20⟩] [⟨.integer 7, 22⟩] :=
    ⟨⟨1, by decide +kernel⟩, rfl⟩
  have exact : ExactWithin (twoPow 53) 9007199254740991
      [⟨.add, 17, 1, 18⟩, ⟨.div, 19, 2, 20⟩] 4503599627370496 :=
    .cons (by decide +kernel) (by decide +kernel) rfl
      (.cons (by decide +kernel) (by decide +kernel) (by decide +kernel)
        (.nil (by decide +kernel)))
  obtain ⟨number, evaluated, whole, -, display⟩ := evaluate_exact opens exact
  have written := display (by decide) ⟨⟨.div, 19, 2, 20⟩, by simp, rfl⟩
  exact ⟨opens, exact, number, evaluated, whole, written.trans (by decide +kernel)⟩

end LineCalc
