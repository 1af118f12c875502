import LineCalc.Power

/-!
# Decimal digits

A whole number is written with as many ASCII digits as it needs and read from a
run of any length, so leading zeros are read and never written.
-/

namespace LineCalc

/-- The digits of a whole number, without leading zeros. -/
def natDigits (n : Nat) : List Char := Nat.toDigits 10 n

/-- The digits of a whole number after a minus if it is negative. -/
def intDigits (n : Int) : List Char :=
  if n < 0 then '-' :: natDigits n.natAbs else natDigits n.natAbs

/-- The whole number that a run of digits stands for; no digits stand for
zero. -/
def digitsValue (digits : List Char) : Nat := Nat.ofDigitChars 10 digits 0

/-- The text of a whole number. -/
def natText (n : Nat) : String := String.ofList (natDigits n)

theorem natDigits_ne_nil (n : Nat) : natDigits n ≠ [] := Nat.toDigits_ne_nil

theorem isDigit_of_mem_natDigits {n : Nat} {c : Char} (member : c ∈ natDigits n) :
    c.isDigit = true :=
  Nat.isDigit_of_mem_toDigits (by decide) (by decide) member

/-- A number has enough digits for its size. -/
theorem lt_tenPow_length_natDigits (n : Nat) : n < tenPow (natDigits n).length :=
  (Nat.length_toDigits_le_iff (by decide) (List.length_pos_iff.2 (natDigits_ne_nil n))).1
    (Nat.le_refl _)

/-- Reading undoes writing. -/
@[simp] theorem digitsValue_natDigits (n : Nat) : digitsValue (natDigits n) = n :=
  Nat.ofDigitChars_toDigits (by decide) (by decide)

end LineCalc
