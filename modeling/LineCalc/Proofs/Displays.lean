import LineCalc.Proofs.Numerals
import LineCalc.Proofs.WholeResults

/-!
# How results are shown

An integer result is whole, so the integer layout shows it in digits alone, and the real
layout shows a point or an exponent in every number.  The two kinds of text have nothing
in common (`ShowsInteger.not_showsReal`), so what is shown tells the mark of the result
and with it the layout, and a text in a known layout tells the number
(`eq_of_display_eq`).
-/

namespace LineCalc

open Binary64 (Magnitude IsWhole one signChars)

/-! ## Two kinds of text -/

/-- An optional minus and digits. -/
def ShowsInteger (text : String) : Prop :=
  ∃ (negative : Bool) (digits : List Char), digits ≠ [] ∧ (∀ c ∈ digits, c.isDigit = true) ∧
    text.toList = signChars negative ++ digits

/-- A text with a point or an exponent. -/
def ShowsReal (text : String) : Prop := '.' ∈ text.toList ∨ 'e' ∈ text.toList

theorem ShowsInteger.not_showsReal {text : String} (integer : ShowsInteger text) :
    ¬ShowsReal text := by
  obtain ⟨negative, digits, -, all, same⟩ := integer
  have absent {c : Char} (noMinus : c ≠ '-') (noDigit : c.isDigit = false) :
      c ∉ text.toList := by
    rw [same, List.mem_append, not_or]
    refine ⟨fun member => noMinus ?_, fun member => ?_⟩
    · cases negative with
      | false => cases member
      | true => exact List.mem_singleton.1 member
    · rw [all c member] at noDigit
      cases noDigit
  rintro (point | exponent)
  · exact absent (by decide) rfl point
  · exact absent (by decide) rfl exponent

namespace Decimal

theorem mem_write_real (d : Decimal) : '.' ∈ d.write .real ∨ 'e' ∈ d.write .real := by
  rw [write]
  split
  · left
    have ending : '.' ∈ afterPoint ['.', '0'] d.fractionDigits := by
      cases d.fractionDigits with
      | nil => exact List.mem_cons_self
      | cons c rest => exact List.mem_cons_self
    exact List.mem_append_right _ ending
  · right
    exact List.mem_append_right _ List.mem_cons_self

end Decimal

namespace Number

variable {number other : Number}

theorem exists_of_isFinite (finite : number.value.isFinite = true) :
    ∃ negative m, number.value = .finite negative m := by
  cases value : number.value with
  | nan => rw [value] at finite; cases finite
  | infinite s => rw [value] at finite; cases finite
  | finite s m => exact ⟨s, m, rfl⟩

/-- A whole number without the mark is shown in digits alone. -/
theorem showsInteger_display (finite : number.value.isFinite = true)
    (whole : IsWhole number.value) (integer : number.real = false) :
    ShowsInteger number.display := by
  obtain ⟨s, m, value⟩ := exists_of_isFinite finite
  obtain ⟨n, spells, -⟩ := exists_spells_shortest (whole s m value)
  refine ⟨s, _, spells.nonempty, spells.digit, ?_⟩
  rw [toList_display, write, layout, integer, value]
  rfl

/-- Every number with the mark is shown with a point or an exponent. -/
theorem showsReal_display (finite : number.value.isFinite = true) (real : number.real = true) :
    ShowsReal number.display := by
  obtain ⟨s, m, value⟩ := exists_of_isFinite finite
  have written : number.display.toList =
      signChars s ++ (Decimal.shortest m).write .real := by
    rw [toList_display, write, layout, real, value]
    rfl
  rw [ShowsReal, written]
  rcases (Decimal.shortest m).mem_write_real with point | exponent
  · exact .inl (List.mem_append_right _ point)
  · exact .inr (List.mem_append_right _ exponent)

/-- A result that is whole unless it has the mark. -/
def WellMarked (number : Number) : Prop := number.real = false → IsWhole number.value

theorem real_eq_of_display_eq (finite : number.value.isFinite = true)
    (finite' : other.value.isFinite = true) (marked : number.WellMarked)
    (marked' : other.WellMarked) (same : number.display = other.display) :
    number.real = other.real := by
  cases real : number.real with
  | false =>
    have shows := showsInteger_display finite (marked real) real
    cases real' : other.real with
    | false => rfl
    | true => exact absurd (showsReal_display finite' real') (same ▸ shows).not_showsReal
  | true =>
    have shows := showsReal_display finite real
    cases real' : other.real with
    | false =>
      exact absurd shows (same ▸ showsInteger_display finite' (marked' real') real').not_showsReal
    | true => rfl

/-- What is shown of a finite result tells the result. -/
theorem eq_of_display_eq (finite : number.value.isFinite = true)
    (finite' : other.value.isFinite = true) (marked : number.WellMarked)
    (marked' : other.WellMarked) (same : number.display = other.display) : number = other := by
  have reals := real_eq_of_display_eq finite finite' marked marked' same
  obtain ⟨s, m, value⟩ := exists_of_isFinite finite
  obtain ⟨t, n, value'⟩ := exists_of_isFinite finite'
  have layouts : other.layout = number.layout := by rw [layout, layout, reals]
  have texts := congrArg String.toList same
  rw [toList_display, toList_display, write, write, layouts, value, value'] at texts
  obtain ⟨rfl, rfl⟩ := Binary64.eq_of_write_eq number.wholeEnding_layout texts
  cases number
  cases other
  cases value
  cases value'
  cases reals
  rfl

end Number

/-! ## Lines -/

theorem wellMarked_of_evaluate {line : List Char} {number : Number}
    (evaluated : evaluate line = .ok number) : number.WellMarked :=
  isWhole_of_evaluate evaluated

/-- A finite result that no division went into is whole and shown in digits alone, and one
that a division went into is shown with a point or an exponent. -/
theorem exists_showing {line : List Char} {number : Number}
    (evaluated : evaluate line = .ok number) (finite : number.value.isFinite = true) :
    ∃ first applications rest, OpensWith line first applications rest ∧
      number = applyAll ⟨.ofNat first, false⟩ applications ∧
      ((∀ a ∈ applications, a.op ≠ .div) →
        IsWhole number.value ∧ ShowsInteger number.display) ∧
      ((∃ a ∈ applications, a.op = .div) → ShowsReal number.display) := by
  obtain ⟨first, applications, rest, opens, -, same, -⟩ := exists_opensWith evaluated
  refine ⟨first, applications, rest, opens, same, fun noDivision => ?_, fun division => ?_⟩
  · have integer : number.real = false := by
      rw [same]
      exact (real_applyAll_eq_false_iff _ applications).2 noDivision
    have whole := wellMarked_of_evaluate evaluated integer
    exact ⟨whole, Number.showsInteger_display finite whole integer⟩
  · have real : number.real = true := by
      rw [same]
      exact (real_applyAll _ applications).2 (.inr division)
    exact Number.showsReal_display finite real

/-- What is shown of a finite result tells an integer result from a real one, and tells the
result. -/
theorem display_tells_result :
    (∀ (first : Nat) (applications : List Application), (∀ a ∈ applications, a.op ≠ .div) →
      IsWhole (applyAll ⟨.ofNat first, false⟩ applications).value) ∧
    (∀ (line : List Char) (number : Number), evaluate line = .ok number →
      number.value.isFinite = true →
      ∃ first applications rest, OpensWith line first applications rest ∧
        number = applyAll ⟨.ofNat first, false⟩ applications ∧
        ((∀ a ∈ applications, a.op ≠ .div) →
          IsWhole number.value ∧ ShowsInteger number.display) ∧
        ((∃ a ∈ applications, a.op = .div) → ShowsReal number.display)) ∧
    (∀ (line line' : List Char) (number number' : Number), evaluate line = .ok number →
      evaluate line' = .ok number' → number.value.isFinite = true →
      number'.value.isFinite = true → number.display = number'.display → number = number') := by
  refine ⟨fun first applications => isWhole_of_no_division, fun line number => exists_showing,
    ?_⟩
  intro line line' number number' evaluated evaluated' finite finite' same
  exact Number.eq_of_display_eq finite finite' (wellMarked_of_evaluate evaluated)
    (wellMarked_of_evaluate evaluated') same

/-- Two lines that come to the same fraction, and one that comes to a whole number. -/
theorem display_tells_result_halves :
    ∃ half half' difference, evaluate "7/2".toList = .ok half ∧
      evaluate "14/4 9".toList = .ok half' ∧ half = half' ∧ ShowsReal half.display ∧
      evaluate "2-9".toList = .ok difference ∧ IsWhole difference.value ∧
      ShowsInteger difference.display := by
  obtain ⟨whole, shows, tells⟩ := display_tells_result
  have opens : OpensWith "7/2".toList 7 [⟨.div, 2, 2, 3⟩] [] := ⟨⟨1, by decide +kernel⟩, rfl⟩
  have opens' : OpensWith "14/4 9".toList 14 [⟨.div, 3, 4, 4⟩] [⟨.integer 9, 6⟩] :=
    ⟨⟨1, by decide +kernel⟩, rfl⟩
  have minus : OpensWith "2-9".toList 2 [⟨.sub, 2, 9, 3⟩] [] := ⟨⟨1, by decide +kernel⟩, rfl⟩
  have evaluated := opens.evaluate_eq (by decide +kernel)
  have evaluated' := opens'.evaluate_eq (by decide +kernel)
  have difference := minus.evaluate_eq (by decide +kernel)
  have finite : (applyAll ⟨.ofNat 7, false⟩ [⟨.div, 2, 2, 3⟩]).value.isFinite = true := by
    decide +kernel
  refine ⟨_, _, _, evaluated, evaluated', ?_, ?_, difference, whole 2 _ (by decide), ?_⟩
  · exact tells _ _ _ _ evaluated evaluated' finite (by decide +kernel) (by decide +kernel)
  · obtain ⟨_, _, _, again, -, -, real⟩ := shows _ _ evaluated finite
    obtain ⟨rfl, rfl, rfl⟩ := opens.unique again
    exact real ⟨⟨.div, 2, 2, 3⟩, by decide, rfl⟩
  · obtain ⟨_, _, _, again, -, integer, -⟩ := shows _ _ difference (by decide +kernel)
    obtain ⟨rfl, rfl, rfl⟩ := minus.unique again
    exact (integer (by decide)).2

end LineCalc
