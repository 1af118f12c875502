import LineCalc.Number
import LineCalc.Proofs.DecimalTexts

/-!
# Numerals

What number a text is, apart from how results are written: digits, perhaps with a point
among them, then perhaps an `e` and a whole number, and in front perhaps a minus
(`Numeral`).  A text is one number at most (`Numeral.unique`), since its parts are found
by the marks between them; a finite number is written as the numeral of its shortest
decimal in either layout (`numeral_write`), so its text tells its sign and its magnitude
(`eq_of_write_eq`).
-/

namespace LineCalc

open Binary64 (Magnitude signChars)

/-! ## Grammar -/

/-- Digits with a point among them, or without one. -/
inductive Mantissa : List Char → ℚ → Prop where
  | whole {text : List Char} {n : Nat} (spells : Spells text n) : Mantissa text n
  | pointed {front back : List Char} {n k : Nat} (before : Spells front n)
      (after : Spells back k) : Mantissa (front ++ '.' :: back) (n + k / 10 ^ back.length)

/-- A whole number with a minus or without one. -/
inductive Exponent : List Char → Int → Prop where
  | up {text : List Char} {n : Nat} (spells : Spells text n) : Exponent text n
  | down {text : List Char} {n : Nat} (spells : Spells text n) : Exponent ('-' :: text) (-n)

/-- A mantissa, with an exponent after an `e` or without one. -/
inductive Denotes : List Char → ℚ → Prop where
  | plain {text : List Char} {q : ℚ} (mantissa : Mantissa text q) : Denotes text q
  | scaled {front back : List Char} {q : ℚ} {e : Int} (mantissa : Mantissa front q)
      (exponent : Exponent back e) : Denotes (front ++ 'e' :: back) (q * 10 ^ e)

/-- A text is the number of this size, below zero or not. -/
inductive Numeral : List Char → Bool → ℚ → Prop where
  | positive {text : List Char} {size : ℚ} (denotes : Denotes text size) : Numeral text false size
  | negative {text : List Char} {size : ℚ} (denotes : Denotes text size) :
      Numeral ('-' :: text) true size

/-! ## Parts -/

namespace Decimal

theorem digitsValue_append (front back : List Char) :
    digitsValue (front ++ back) = digitsValue front * tenPow back.length + digitsValue back := by
  rw [digitsValue, Nat.ofDigitChars_append, Nat.ofDigitChars_eq_ofDigitChars_zero, Nat.mul_comm]
  rfl

theorem value_append (whole fraction : List Char) :
    value ⟨digitsValue (whole ++ fraction), -fraction.length⟩ =
      digitsValue whole + digitsValue fraction / 10 ^ fraction.length := by
  have scale : (10 : ℚ) ^ fraction.length ≠ 0 := pow_ne_zero _ (by norm_num)
  rw [value, digitsValue_append, Nat.cast_add, Nat.cast_mul, cast_tenPow, zpow_neg, zpow_natCast,
    add_mul, mul_assoc, mul_inv_cancel₀ scale, mul_one, div_eq_mul_inv]

theorem value_sub (digits : Nat) (e k : Int) :
    value ⟨digits, e - k⟩ = value ⟨digits, -k⟩ * 10 ^ e := by
  rw [value, value, mul_assoc, ← zpow_add₀ (by norm_num), neg_add_eq_sub]

end Decimal

open Decimal (afterPoint value ofText)

/-- A mantissa is digits before a point and after it, as decimals are written. -/
theorem mantissa_iff {text : List Char} {q : ℚ} : Mantissa text q ↔
    ∃ whole fraction, text = whole ++ afterPoint [] fraction ∧ whole ≠ [] ∧
      (∀ c ∈ whole ++ fraction, c.isDigit = true) ∧
      value ⟨digitsValue (whole ++ fraction), -fraction.length⟩ = q := by
  constructor
  · intro mantissa
    cases mantissa with
    | whole spells =>
      refine ⟨text, [], (List.append_nil text).symm, spells.nonempty, ?_, ?_⟩
      · rw [List.append_nil]
        exact spells.digit
      · rw [List.append_nil, spells.value, Decimal.value, List.length_nil, Nat.cast_zero,
          neg_zero, zpow_zero, mul_one]
    | @pointed front back n k before after =>
      obtain ⟨c, rest, rfl⟩ := List.exists_cons_of_ne_nil after.nonempty
      refine ⟨front, c :: rest, rfl, before.nonempty,
        List.forall_mem_append.2 ⟨before.digit, after.digit⟩, ?_⟩
      rw [Decimal.value_append, before.value, after.value]
  · rintro ⟨whole, fraction, rfl, nonempty, all, rfl⟩
    obtain ⟨before, after⟩ := List.forall_mem_append.1 all
    rw [Decimal.value_append]
    cases fraction with
    | nil =>
      have none : (digitsValue whole : ℚ) + digitsValue [] / 10 ^ ([] : List Char).length =
          digitsValue whole := by
        rw [show digitsValue [] = 0 from rfl, Nat.cast_zero, zero_div, add_zero]
      rw [none, afterPoint, List.append_nil]
      exact .whole ⟨nonempty, before, rfl⟩
    | cons c rest => exact .pointed ⟨nonempty, before, rfl⟩ ⟨List.cons_ne_nil c rest, after, rfl⟩

theorem Exponent.intValue_eq {text : List Char} {e : Int} (exponent : Exponent text e) :
    intValue text = e := by
  cases exponent with
  | up spells => rw [intValue_of_isDigit spells.digit, spells.value]
  | down spells => rw [intValue, spells.value]

theorem exponent_intDigits (k : Int) : Exponent (intDigits k) k := by
  have spells (n : Nat) : Spells (natDigits n) n :=
    ⟨natDigits_ne_nil n, fun _ member => isDigit_of_mem_natDigits member, digitsValue_natDigits n⟩
  rw [intDigits]
  split
  next negative =>
    have opposite : k = -(k.natAbs : Int) := by omega
    have down := Exponent.down (spells k.natAbs)
    rwa [← opposite] at down
  next nonnegative =>
    have same : k = (k.natAbs : Int) := by omega
    have up := Exponent.up (spells k.natAbs)
    rwa [← same] at up

/-! ## One number at most -/

namespace Denotes

variable {text : List Char} {q : ℚ}

theorem value_ofText (denotes : Denotes text q) : (ofText text).value = q := by
  cases denotes with
  | plain mantissa =>
    obtain ⟨whole, fraction, rfl, -, all, rfl⟩ := mantissa_iff.1 mantissa
    rw [Decimal.ofText_append_afterPoint all]
  | scaled mantissa exponent =>
    obtain ⟨whole, fraction, rfl, -, all, rfl⟩ := mantissa_iff.1 mantissa
    rw [Decimal.ofText_append_exponent all, exponent.intValue_eq, Decimal.value_sub]

theorem startsWithDigit_eq (denotes : Denotes text q) : startsWithDigit text = true := by
  have starts {front : List Char} {q : ℚ} (mantissa : Mantissa front q) (rest : List Char) :
      startsWithDigit (front ++ rest) = true := by
    obtain ⟨whole, fraction, rfl, nonempty, all, -⟩ := mantissa_iff.1 mantissa
    rw [List.append_assoc]
    exact startsWithDigit_digits_append nonempty (List.forall_mem_append.1 all).1 _
  cases denotes with
  | plain mantissa =>
    have first := starts mantissa []
    rwa [List.append_nil] at first
  | scaled mantissa exponent => exact starts mantissa _

end Denotes

theorem numeral_iff {text : List Char} {negative : Bool} {size : ℚ} :
    Numeral text negative size ↔
      ∃ rest, text = signChars negative ++ rest ∧ Denotes rest size := by
  constructor
  · rintro (denotes | denotes)
    · exact ⟨_, rfl, denotes⟩
    · exact ⟨_, rfl, denotes⟩
  · rintro ⟨rest, rfl, denotes⟩
    cases negative with
    | false => exact .positive denotes
    | true => exact .negative denotes

/-- A minus is told from a digit. -/
theorem Binary64.eq_of_signChars_append {s t : Bool} {text other : List Char}
    (first : startsWithDigit text = true) (second : startsWithDigit other = true)
    (same : signChars s ++ text = signChars t ++ other) : s = t ∧ text = other := by
  cases s with
  | false =>
    cases t with
    | false => exact ⟨rfl, same⟩
    | true =>
      have starts : text = '-' :: other := same
      rw [starts] at first
      cases first
  | true =>
    cases t with
    | false =>
      have starts : '-' :: text = other := same
      rw [← starts] at second
      cases second
    | true => exact ⟨rfl, List.tail_eq_of_cons_eq same⟩

/-- A text is one number at most. -/
theorem Numeral.unique {text : List Char} {s t : Bool} {q r : ℚ} (first : Numeral text s q)
    (second : Numeral text t r) : s = t ∧ q = r := by
  obtain ⟨rest, rfl, denotes⟩ := numeral_iff.1 first
  obtain ⟨other, same, denotes'⟩ := numeral_iff.1 second
  obtain ⟨signs, rfl⟩ := Binary64.eq_of_signChars_append denotes.startsWithDigit_eq
    denotes'.startsWithDigit_eq same
  exact ⟨signs, denotes.value_ofText.symm.trans denotes'.value_ofText⟩

/-! ## What is written -/

namespace Decimal

theorem mantissa_positional {ending : List Char} (known : ending = [] ∨ ending = ['.', '0'])
    (d : Decimal) : Mantissa (d.positional ending) d.value := by
  obtain ⟨fraction, text, all, value⟩ := d.exists_parts_positional known
  exact mantissa_iff.2 ⟨d.wholeDigits, fraction, text, d.wholeDigits_ne_nil, all, value⟩

theorem denotes_scientific (d : Decimal) : Denotes d.scientific d.value := by
  have mantissa : Mantissa
      ((natDigits d.digits).take 1 ++ afterPoint [] ((natDigits d.digits).drop 1)) _ :=
    mantissa_iff.2 ⟨_, _, rfl, take_natDigits_ne_nil d.digits, isDigit_of_mem_scientific, rfl⟩
  have scaled := Denotes.scaled mantissa (exponent_intDigits (d.pointPosition - 1))
  have value := scaled.value_ofText
  change (ofText d.scientific).value = _ at value
  rw [ofText_scientific] at value
  rwa [← value] at scaled

theorem denotes_write {layout : Layout}
    (known : layout.wholeEnding = [] ∨ layout.wholeEnding = ['.', '0']) (d : Decimal) :
    Denotes (d.write layout) d.value := by
  rw [write]
  split
  · exact .plain (mantissa_positional known d)
  · exact denotes_scientific d

end Decimal

/-- A finite number is written as a numeral. -/
theorem Binary64.numeral_write {layout : Decimal.Layout}
    (known : layout.wholeEnding = [] ∨ layout.wholeEnding = ['.', '0']) (negative : Bool)
    (m : Magnitude) :
    Numeral (write layout (.finite negative m)) negative (Decimal.shortest m).value :=
  numeral_iff.2 ⟨_, rfl, Decimal.denotes_write known _⟩

/-- The text of a finite number tells its sign and its magnitude. -/
theorem Binary64.eq_of_write_eq {layout : Decimal.Layout}
    (known : layout.wholeEnding = [] ∨ layout.wholeEnding = ['.', '0']) {s t : Bool}
    {m n : Magnitude} (same : write layout (.finite s m) = write layout (.finite t n)) :
    s = t ∧ m = n := by
  have numeral := numeral_write known s m
  rw [same] at numeral
  obtain ⟨signs, values⟩ := numeral.unique (numeral_write known t n)
  have first := Decimal.readsAs_shortest m
  have second := Decimal.readsAs_shortest n
  rw [Decimal.readsAs_congr values, Decimal.readsAs_iff] at first
  rw [Decimal.readsAs_iff] at second
  exact ⟨signs, Magnitude.ext (first.symm.trans second)⟩

/-! ## Results -/

namespace Number

@[simp] theorem toList_display (number : Number) : number.display.toList = number.write :=
  String.toList_ofList

theorem wholeEnding_layout (number : Number) :
    number.layout.wholeEnding = [] ∨ number.layout.wholeEnding = ['.', '0'] := by
  rw [layout]
  split
  · exact .inr rfl
  · exact .inl rfl

/-- What is shown of a finite result is the same number whatever the mark. -/
theorem numeral_display (negative : Bool) (m : Magnitude) (real : Bool) :
    Numeral (display ⟨.finite negative m, real⟩).toList negative (Decimal.shortest m).value := by
  rw [toList_display, write]
  exact Binary64.numeral_write (wholeEnding_layout _) negative m

end Number

end LineCalc
