/-!
# Blanks

A blank is a character with the Unicode property `White_Space`.  It is the only
kind of character that may stand between two lexemes without being one, and a
line of blanks alone is an empty line.  The zero width space and the byte order
mark are not among them.
-/

namespace LineCalc

/-- The ranges of the property `White_Space`, first and last code point. -/
def blankRanges : List (Nat × Nat) :=
  [(0x09, 0x0D), (0x20, 0x20), (0x85, 0x85), (0xA0, 0xA0), (0x1680, 0x1680), (0x2000, 0x200A),
    (0x2028, 0x2029), (0x202F, 0x202F), (0x205F, 0x205F), (0x3000, 0x3000)]

/-- Characters with the property `White_Space`. -/
def isBlank (c : Char) : Bool :=
  blankRanges.any fun (first, last) => first ≤ c.toNat && c.toNat ≤ last

/-- A digit is not blank. -/
theorem isBlank_eq_false_of_isDigit {c : Char} (digit : c.isDigit = true) :
    isBlank c = false := by
  have bounds : 48 ≤ c.toNat ∧ c.toNat ≤ 57 := by
    simp only [Char.isDigit, ge_iff_le, Bool.and_eq_true, decide_eq_true_eq,
      UInt32.le_iff_toNat_le] at digit
    exact digit
  rw [Bool.eq_false_iff]
  intro blank
  simp only [isBlank, blankRanges, List.any_cons, List.any_nil, Bool.or_false, Bool.or_eq_true,
    Bool.and_eq_true, decide_eq_true_eq] at blank
  omega

/-- The line without its leading and trailing blanks. -/
def trimBlanks (line : List Char) : List Char :=
  ((line.dropWhile isBlank).reverse.dropWhile isBlank).reverse

end LineCalc
