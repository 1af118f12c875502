import LineCalc.Proofs.Accumulators
import LineCalc.Proofs.FaultPlaces

/-!
# Zero divisors

A division is refused for its literal alone.  The literal is tested after its conversion, but
only zero converts to zero (`isZero_ofNat_digitsValue_iff`), and the number on the left is not
looked at (`Operator.apply_eq_error_iff`).

So a line fails with a division by zero just if it begins with an expression whose operators
are all applied, and there follow a division and a literal of zeros (`ZeroDivision`).  What
comes after the literal does not matter, and nothing before it failed.
-/

namespace LineCalc

/-! ## Refused operators -/

/-- An operator is refused just if it divides by the literal 0, whatever it is applied to. -/
theorem Operator.apply_eq_error_iff {op : Operator} {left : Binary64} {n position : Nat}
    {error : ArithmeticError} :
    op.apply left (.ofNat n) position = .error error ↔
      op = .div ∧ n = 0 ∧ error = .divisionByZero position := by
  rw [Operator.apply_eq]
  split
  next refused =>
    have zero := Binary64.isZero_ofNat.1 refused.2
    rw [Except.error.injEq]
    exact ⟨fun same => ⟨refused.1, zero, same.symm⟩, fun found => found.2.2.symm⟩
  next applied =>
    constructor
    · nofun
    · rintro ⟨division, zero, -⟩
      exact absurd ⟨division, Binary64.isZero_ofNat.2 zero⟩ applied

/-- A literal is converted to zero just if all its digits are zeros. -/
theorem isZero_ofNat_digitsValue_iff {digits : List Char}
    (all : ∀ c ∈ digits, c.isDigit = true) :
    (Binary64.ofNat (digitsValue digits)).isZero = true ↔ ∀ c ∈ digits, c = '0' := by
  rw [Binary64.isZero_ofNat]
  exact ⟨eq_zero_of_digitsValue all, digitsValue_of_zeros⟩

/-! ## Lines -/

/-- The look of a line that is divided by zero at a position. -/
inductive ZeroDivision : List Char → Nat → Prop where
  | intro {front blanks zeros rest : List Char} {first place : Nat}
      {applications : List Application}
      (opens : items front = ⟨.integer first, place⟩ :: applicationItems applications)
      (applied : AllApplied first applications) (blank : ∀ c ∈ blanks, isBlank c = true)
      (nonempty : zeros ≠ []) (zero : ∀ c ∈ zeros, c = '0')
      (ends : startsWithDigit rest = false) :
      ZeroDivision (front ++ '/' :: (blanks ++ (zeros ++ rest))) (front.length + 1)

theorem complete_iff {before : List Item} :
    Complete before ↔ ∃ first place applications,
      before = ⟨.integer first, place⟩ :: applicationItems applications ∧
        AllApplied first applications := by
  constructor
  · rintro ⟨first, place, applications, defined⟩
    exact ⟨first, place, applications, rfl, allApplied_iff.2 defined⟩
  · rintro ⟨first, place, applications, rfl, applied⟩
    exact .intro first place applications (allApplied_iff.1 applied)

theorem evaluate_eq_divisionByZero_iff {line : List Char} {position : Nat} :
    evaluate line = .error (.arithmetic (.divisionByZero position)) ↔
      ZeroDivision line position := by
  rw [evaluate_eq_error_iff]
  constructor
  · intro fault
    cases fault with
    | division complete blank nonempty zero ends =>
      obtain ⟨first, place, applications, opens, applied⟩ := complete_iff.1 complete
      exact .intro opens applied blank nonempty zero ends
  · rintro ⟨opens, applied, blank, nonempty, zero, ends⟩
    exact .division (complete_iff.2 ⟨_, _, _, opens, applied⟩) blank nonempty zero ends

/-- A line fails with a division by zero just if operators that are all applied are followed by
a division and a literal of zeros, of any length.  No other literal, of any size, is converted
to zero, and no number on the left of an operator makes it fail or keeps it from failing. -/
theorem divisionByZero_iff_zeros :
    (∀ (line : List Char) (position : Nat),
      evaluate line = .error (.arithmetic (.divisionByZero position)) ↔
        ZeroDivision line position) ∧
    (∀ digits : List Char, (∀ c ∈ digits, c.isDigit = true) →
      ((Binary64.ofNat (digitsValue digits)).isZero = true ↔ ∀ c ∈ digits, c = '0')) ∧
    (∀ (op : Operator) (left : Binary64) (n position : Nat) (error : ArithmeticError),
      op.apply left (.ofNat n) position = .error error ↔
        op = .div ∧ n = 0 ∧ error = .divisionByZero position) :=
  ⟨fun _ _ => evaluate_eq_divisionByZero_iff, fun _ => isZero_ofNat_digitsValue_iff,
    fun _ _ _ _ _ => Operator.apply_eq_error_iff⟩

end LineCalc
