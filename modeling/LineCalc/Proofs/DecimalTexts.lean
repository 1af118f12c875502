import LineCalc.Proofs.Items
import LineCalc.Proofs.WholeDecimals
import Mathlib.Algebra.Order.Field.Rat
import Mathlib.Tactic.NormNum

/-!
# What a decimal text says

A text in either layout is read as a decimal again by counting: its digits without the
point are the digits, those after the point lower the exponent, and the number after an
`e` is added to it (`ofText`).  From scientific writing the same decimal is read again
(`ofText_scientific`).  Positional writing fills up places with zeros, so its digits need not
be those of the decimal, but they stand for the same number (`exists_parts_positional`).

A larger decimal is not rounded to a smaller magnitude (`rounded_le_rounded`), so decimals
that are the same number round alike (`readsAs_congr`), and the shortest decimal of a
magnitude rounds to it (`readsAs_shortest`).
-/

namespace LineCalc

open Binary64 (Magnitude one roundUnits roundUnits_one)

/-! ## Parts of a text -/

/-- The part of a text before a mark, or all of it. -/
def beforeMark (mark : Char) (text : List Char) : List Char := text.takeWhile (· != mark)

/-- The part of a text after the first occurrence of a mark, if there is one. -/
def afterMark (mark : Char) (text : List Char) : List Char := (text.dropWhile (· != mark)).tail

section Marks

variable {mark : Char} {front : List Char}

theorem ne_mark_of_not_mem (absent : mark ∉ front) : ∀ c ∈ front, (c != mark) = true := by
  intro c member
  rw [bne_iff_ne]
  rintro rfl
  exact absent member

theorem beforeMark_append (absent : mark ∉ front) (back : List Char) :
    beforeMark mark (front ++ mark :: back) = front := by
  rw [beforeMark, List.takeWhile_append_of_pos (ne_mark_of_not_mem absent),
    List.takeWhile_cons_of_neg (by simp), List.append_nil]

theorem afterMark_append (absent : mark ∉ front) (back : List Char) :
    afterMark mark (front ++ mark :: back) = back := by
  rw [afterMark, List.dropWhile_append_of_pos (ne_mark_of_not_mem absent),
    List.dropWhile_cons_of_neg (by simp), List.tail_cons]

theorem beforeMark_of_not_mem (absent : mark ∉ front) : beforeMark mark front = front :=
  List.takeWhile_eq_self_iff.2 (ne_mark_of_not_mem absent)

theorem afterMark_of_not_mem (absent : mark ∉ front) : afterMark mark front = [] := by
  rw [afterMark, List.dropWhile_eq_nil_iff.2 (ne_mark_of_not_mem absent), List.tail_nil]

end Marks

/-- The whole number that digits stand for, or its opposite after a minus. -/
def intValue : List Char → Int
  | '-' :: digits => -digitsValue digits
  | digits => digitsValue digits

theorem intValue_of_isDigit {digits : List Char} (all : ∀ c ∈ digits, c.isDigit = true) :
    intValue digits = digitsValue digits := by
  unfold intValue
  split
  next rest => exact absurd (all '-' List.mem_cons_self) (by decide)
  next => rfl

theorem intValue_intDigits (k : Int) : intValue (intDigits k) = k := by
  rw [intDigits]
  split
  next negative =>
    rw [intValue, digitsValue_natDigits]
    omega
  next =>
    rw [intValue_of_isDigit fun _ member => isDigit_of_mem_natDigits member,
      digitsValue_natDigits]
    omega

namespace Decimal

/-! ## Values -/

/-- The number that a decimal is. -/
def value (d : Decimal) : ℚ := d.digits * 10 ^ d.exponent

theorem cast_tenPow (k : Nat) : ((tenPow k : Nat) : ℚ) = 10 ^ (k : Int) := by
  have power : tenPow k = 10 ^ k := rfl
  rw [power, Nat.cast_pow, zpow_natCast, Nat.cast_ofNat]

/-- Zeros at the end of the digits may be taken for places. -/
theorem value_mul_tenPow (digits k : Nat) (e : Int) :
    value ⟨digits * tenPow k, e⟩ = value ⟨digits, e + k⟩ := by
  have ten : (10 : ℚ) ≠ 0 := by norm_num
  rw [value, value, Nat.cast_mul, cast_tenPow, mul_assoc, ← zpow_add₀ ten, add_comm (k : Int)]

theorem value_eq_div (d : Decimal) :
    d.value = (d.digits * tenPow d.exponent.toNat : Nat) / (tenPow (-d.exponent).toNat : Nat) := by
  have ten : (10 : ℚ) ≠ 0 := by norm_num
  have split : d.exponent = d.exponent.toNat - (-d.exponent).toNat := by omega
  rw [value, Nat.cast_mul, cast_tenPow, cast_tenPow, mul_div_assoc, ← zpow_sub₀ ten, ← split]

theorem value_le_iff {d other : Decimal} : d.value ≤ other.value ↔
    d.digits * tenPow d.exponent.toNat * tenPow (-other.exponent).toNat ≤
      other.digits * tenPow other.exponent.toNat * tenPow (-d.exponent).toNat := by
  have positive (k : Nat) : (0 : ℚ) < (tenPow k : Nat) := Nat.cast_pos.2 (tenPow_pos k)
  rw [value_eq_div, value_eq_div, div_le_div_iff₀ (positive _) (positive _), ← Nat.cast_mul,
    ← Nat.cast_mul, Nat.cast_le]

/-- The units that a decimal is rounded to. -/
def rounded (d : Decimal) : Nat :=
  roundUnits (d.digits * one * tenPow d.exponent.toNat) (tenPow (-d.exponent).toNat)

theorem readsAs_iff {d : Decimal} {m : Magnitude} : d.readsAs m = true ↔ d.rounded = m.units :=
  beq_iff_eq

theorem rounded_le_rounded {d other : Decimal} (le : d.value ≤ other.value) :
    d.rounded ≤ other.rounded := by
  refine Binary64.roundUnits_le_roundUnits (tenPow_pos _) (tenPow_pos _) ?_
  rw [Nat.mul_right_comm d.digits, Nat.mul_right_comm _ one, Nat.mul_right_comm other.digits,
    Nat.mul_right_comm _ one]
  exact Nat.mul_le_mul_right one (value_le_iff.1 le)

/-- Decimals that are the same number round to the same magnitude. -/
theorem readsAs_congr {d other : Decimal} (same : d.value = other.value) (m : Magnitude) :
    d.readsAs m = other.readsAs m := by
  have equal : d.rounded = other.rounded :=
    Nat.le_antisymm (rounded_le_rounded same.le) (rounded_le_rounded same.ge)
  rw [Bool.eq_iff_iff, readsAs_iff, readsAs_iff, equal]

/-! ## The shortest decimal -/

theorem unitDigits_mul_one : unitDigits * one = tenPow 1074 := by decide +kernel

theorem readsAs_expansion (m : Magnitude) : (expansion m).readsAs m = true := by
  have kept := Binary64.roundUnits_mul_right m.units 1 (tenPow_pos 1074)
  rw [Nat.one_mul, roundUnits_one m.onGrid] at kept
  have exponent : (-(-1074 : Int)).toNat = 1074 := rfl
  have noZeros : (-1074 : Int).toNat = 0 := rfl
  rw [readsAs, beq_iff_eq, expansion]
  dsimp only
  rw [exponent, noZeros, tenPow_zero, Nat.mul_one, Nat.mul_assoc, unitDigits_mul_one, kept]

/-- The shortest decimal of a magnitude rounds to it. -/
theorem readsAs_shortest (m : Magnitude) : (shortest m).readsAs m = true := by
  rw [shortest]
  split
  next zero =>
    rw [readsAs, beq_iff_eq, zero]
    dsimp only
    rw [Nat.zero_mul, Nat.zero_mul]
    exact roundUnits_one (Nat.dvd_zero _)
  next =>
    cases found : firstOnGrid? m (topExponent m) with
    | none => exact readsAs_expansion m
    | some d =>
      rw [firstOnGrid?] at found
      obtain ⟨k, -, here⟩ := List.exists_of_findSome?_eq_some found
      exact readsAs_of_onGrid? here

/-! ## Reading a text -/

/-- The decimal that a text stands for: digits, perhaps with a point among them, and perhaps
an exponent after an `e`. -/
def ofText (text : List Char) : Decimal :=
  let mantissa := beforeMark 'e' text
  let fraction := afterMark '.' mantissa
  ⟨digitsValue (beforeMark '.' mantissa ++ fraction),
    intValue (afterMark 'e' text) - fraction.length⟩

theorem afterPoint_cons (ending : List Char) (c : Char) (fraction : List Char) :
    afterPoint ending (c :: fraction) = '.' :: c :: fraction := rfl

section Reading

variable {whole fraction : List Char} (all : ∀ c ∈ whole ++ fraction, c.isDigit = true)
include all

theorem parts_of_afterPoint :
    beforeMark '.' (whole ++ afterPoint [] fraction) = whole ∧
      afterMark '.' (whole ++ afterPoint [] fraction) = fraction := by
  have absent : '.' ∉ whole := fun member =>
    absurd (all '.' (List.mem_append_left _ member)) (by decide)
  cases fraction with
  | nil =>
    rw [afterPoint, List.append_nil]
    exact ⟨beforeMark_of_not_mem absent, afterMark_of_not_mem absent⟩
  | cons c fraction =>
    exact ⟨beforeMark_append absent _, afterMark_append absent _⟩

theorem not_mem_e_afterPoint : 'e' ∉ whole ++ afterPoint [] fraction := by
  have absent : 'e' ∉ whole ++ fraction := fun member => absurd (all 'e' member) (by decide)
  cases fraction with
  | nil => exact absent
  | cons c fraction =>
    rw [List.mem_append, not_or] at absent
    rw [afterPoint_cons, List.mem_append, List.mem_cons, not_or, not_or]
    exact ⟨absent.1, by decide, absent.2⟩

/-- A text without an exponent. -/
theorem ofText_append_afterPoint :
    ofText (whole ++ afterPoint [] fraction) =
      ⟨digitsValue (whole ++ fraction), -fraction.length⟩ := by
  have noExponent := not_mem_e_afterPoint all
  obtain ⟨before, after⟩ := parts_of_afterPoint all
  rw [ofText, beforeMark_of_not_mem noExponent, afterMark_of_not_mem noExponent, before, after]
  congr 1
  rw [intValue_of_isDigit (List.forall_mem_nil _)]
  exact Int.zero_sub _

/-- A text with an exponent. -/
theorem ofText_append_exponent (exponent : List Char) :
    ofText (whole ++ afterPoint [] fraction ++ 'e' :: exponent) =
      ⟨digitsValue (whole ++ fraction), intValue exponent - fraction.length⟩ := by
  have noExponent := not_mem_e_afterPoint all
  obtain ⟨before, after⟩ := parts_of_afterPoint all
  rw [ofText, beforeMark_append noExponent, afterMark_append noExponent, before, after]

end Reading

/-! ## Reading what was written -/

theorem isDigit_of_mem_positionalDigits {d : Decimal} {c : Char}
    (member : c ∈ d.positionalDigits) : c.isDigit = true := by
  rw [positionalDigits, List.mem_append] at member
  rcases member with zero | digit
  · rw [List.eq_of_mem_replicate zero]
    rfl
  · exact (spells_natDigits_append_zeros _ _).digit c digit

theorem places_lt_length (d : Decimal) : d.places < d.positionalDigits.length := by
  rw [positionalDigits, List.length_append, List.length_replicate]
  omega

theorem length_fractionDigits (d : Decimal) : d.fractionDigits.length = d.places := by
  have enough := d.places_lt_length
  rw [fractionDigits, List.length_drop]
  omega

theorem digitsValue_zeros_append (k : Nat) (text : List Char) :
    digitsValue (List.replicate k '0' ++ text) = digitsValue text := by
  rw [digitsValue, Nat.ofDigitChars_append, Nat.ofDigitChars_replicate_zero, Nat.mul_zero]
  rfl

theorem digitsValue_positionalDigits (d : Decimal) :
    digitsValue d.positionalDigits = d.digits * tenPow d.exponent.toNat := by
  rw [positionalDigits, digitsValue_zeros_append, digitsValue_append_zeros,
    digitsValue_natDigits]

theorem value_positionalDigits (d : Decimal) :
    value ⟨digitsValue d.positionalDigits, -d.places⟩ = d.value := by
  have exponent : -(d.places : Int) + d.exponent.toNat = d.exponent := by
    rw [places]
    omega
  rw [digitsValue_positionalDigits, value_mul_tenPow, exponent]

theorem wholeDigits_ne_nil (d : Decimal) : d.wholeDigits ≠ [] := by
  have enough := d.places_lt_length
  rw [← List.length_pos_iff, wholeDigits, List.length_take]
  omega

/-- Positional writing is digits before a point and after it, and they are the decimal. -/
theorem exists_parts_positional {ending : List Char} (known : ending = [] ∨ ending = ['.', '0'])
    (d : Decimal) : ∃ fraction,
      d.positional ending = d.wholeDigits ++ afterPoint [] fraction ∧
        (∀ c ∈ d.wholeDigits ++ fraction, c.isDigit = true) ∧
        value ⟨digitsValue (d.wholeDigits ++ fraction), -fraction.length⟩ = d.value := by
  have parts := d.wholeDigits_append_fractionDigits
  have length := d.length_fractionDigits
  have all : ∀ c ∈ d.wholeDigits ++ d.fractionDigits, c.isDigit = true := by
    rw [parts]
    exact fun c member => isDigit_of_mem_positionalDigits member
  have value := value_positionalDigits d
  rw [← length, ← parts] at value
  rw [positional]
  rcases known with rfl | rfl
  · exact ⟨d.fractionDigits, rfl, all, value⟩
  · cases fraction : d.fractionDigits with
    | cons c rest =>
      rw [fraction] at all value
      exact ⟨c :: rest, rfl, all, value⟩
    | nil =>
      -- The added zero is a fraction of its own, which multiplies the digits by ten.
      rw [fraction, List.append_nil] at all value
      have appended := digitsValue_append_zeros d.wholeDigits 1
      rw [List.replicate_one] at appended
      refine ⟨['0'], rfl, List.forall_mem_append.2 ⟨all, List.forall_mem_singleton.2 rfl⟩, ?_⟩
      rw [appended, value_mul_tenPow]
      exact value

theorem take_natDigits_ne_nil (n : Nat) : (natDigits n).take 1 ≠ [] := by
  have positive := List.length_pos_iff.2 (natDigits_ne_nil n)
  rw [← List.length_pos_iff, List.length_take]
  omega

theorem isDigit_of_mem_scientific {d : Decimal} :
    ∀ c ∈ (natDigits d.digits).take 1 ++ (natDigits d.digits).drop 1, c.isDigit = true := by
  rw [List.take_append_drop]
  exact fun c member => isDigit_of_mem_natDigits member

theorem ofText_scientific (d : Decimal) : ofText d.scientific = d := by
  have positive := List.length_pos_iff.2 (natDigits_ne_nil d.digits)
  have exponent : d.pointPosition - 1 - ((natDigits d.digits).drop 1).length = d.exponent := by
    rw [pointPosition, List.length_drop]
    omega
  rw [scientific, ofText_append_exponent isDigit_of_mem_scientific, List.take_append_drop,
    digitsValue_natDigits, intValue_intDigits, exponent]

end Decimal

end LineCalc
