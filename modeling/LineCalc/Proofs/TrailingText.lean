import LineCalc.Proofs.Evaluation
import LineCalc.Proofs.Lexing

/-!
# Text after an expression

What a line comes to is settled where its expression ends.  If the expression ends
before an integer or an invalid character, that item shuts it off: text added to the line
may lengthen the item but comes too late to change the result
(`OpensWith.append_of_cons`).  If it ends with the line, added text is read on from there.
It must not go on with an operator, and a digit must not join the digits that the line
ends with; then the result stays as well (`OpensWith.append_of_nil`).
-/

namespace LineCalc

/-- What stands where the expression of a line ends: a token or the fault in scanning
one. -/
def expressionEnd (line : List Char) : Except ReadError Token :=
  (Cursor.ofLine line).expression.state.current

/-- Whether a text ends with a blank. -/
def endsWithBlank (text : List Char) : Bool := text.getLast?.any isBlank

/-- A digit after a blank does not carry on a run of digits. -/
theorem separate_of_endsWithBlank {front back : List Char}
    (apart : startsWithDigit back = true → endsWithBlank front = true) : Separate front back := by
  intro digit
  rw [Bool.eq_false_iff]
  intro starts
  have blank := apart starts
  rw [endsWithBlank] at blank
  rw [digitAfter] at digit
  cases last : front.getLast? with
  | none =>
    rw [last] at digit
    cases digit
  | some c =>
    rw [last] at digit blank
    have noDigit := isDigit_eq_false_of_isBlank (c := c) blank
    rw [Option.map_some, Option.getD_some, noDigit] at digit
    cases digit

/-! ## Operators at the start of a text -/

theorem ofChar?_of_isDigit {c : Char} (digit : c.isDigit = true) : Operator.ofChar? c = none := by
  cases spelled : Operator.ofChar? c with
  | none => rfl
  | some op =>
    obtain rfl := Operator.symbol_of_ofChar? spelled
    rw [Lexeme.isDigit_symbol] at digit
    cases digit

/-- One character tells whether a text goes on with an operator. -/
theorem startsWithOperator_itemsFrom_cons {c : Char} (noBlank : isBlank c = false)
    (position : Nat) (rest : List Char) :
    startsWithOperator (itemsFrom position (c :: rest)) = (Operator.ofChar? c).isSome := by
  cases digit : c.isDigit with
  | true =>
    rw [itemsFrom_cons_of_isDigit digit, ofChar?_of_isDigit digit]
    rfl
  | false =>
    rw [itemsFrom_cons_single digit noBlank, ← Lexeme.ofChar_eq_single, Lexeme.ofChar]
    cases Operator.ofChar? c <;> rfl

theorem not_startsWithOperator_itemsFrom {text : List Char}
    (noOperator : ∀ op : Operator, (text.dropWhile isBlank).head? ≠ some op.symbol)
    (position : Nat) : startsWithOperator (itemsFrom position text) = false := by
  have stopped := List.head?_dropWhile_not isBlank text
  rw [itemsFrom_dropWhile_isBlank]
  cases starts : text.dropWhile isBlank with
  | nil => rfl
  | cons c rest =>
    rw [starts] at noOperator stopped
    rw [startsWithOperator_itemsFrom_cons stopped]
    cases spelled : Operator.ofChar? c with
    | none => rfl
    | some op =>
      have symbol := Operator.symbol_of_ofChar? spelled
      exact absurd (congrArg some symbol.symm) (noOperator op)

/-! ## Adding text to a line -/

variable {line : List Char} {first : Nat} {applications : List Application}

/-- An item after the expression keeps it from what is added to the line. -/
theorem OpensWith.append_of_cons {item : Item} {rest : List Item}
    (opens : OpensWith line first applications (item :: rest)) (text : List Char) :
    ∃ later, OpensWith (line ++ text) first applications later := by
  obtain ⟨⟨place, all⟩, ends⟩ := opens
  have split : itemsAfter false 1 line =
      (⟨.integer first, place⟩ :: applicationItems applications) ++ item :: rest := all
  obtain ⟨front, c, back, rfl, cut⟩ := exists_cutBefore split
  rw [← cut.items_back, startsWithOperator_itemsFrom_cons cut.not_isBlank] at ends
  have apart : Separate front (c :: (back ++ text)) := cut.separate
  refine ⟨itemsFrom (1 + front.length) (c :: (back ++ text)), ⟨place, ?_⟩, ?_⟩
  · rw [List.append_assoc, List.cons_append, items, itemsFrom_append apart, itemsFrom,
      cut.items_front, List.cons_append]
  · rw [startsWithOperator_itemsFrom_cons cut.not_isBlank]
    exact ends

theorem OpensWith.append_of_nil (opens : OpensWith line first applications []) {text : List Char}
    (apart : Separate line text)
    (ends : startsWithOperator (itemsFrom (1 + line.length) text) = false) :
    OpensWith (line ++ text) first applications (itemsFrom (1 + line.length) text) := by
  obtain ⟨place, all⟩ := opens.items_eq
  refine ⟨⟨place, ?_⟩, ends⟩
  rw [List.append_nil] at all
  rw [items, itemsFrom_append apart, ← items, all, List.cons_append]

/-- Where no operator follows, an integer does, an invalid character, or the end. -/
theorem firstAnswer_of_not_startsWithOperator {rest : List Item}
    (ends : startsWithOperator rest = false) (more : firstAnswer rest ≠ .ok .endOfInput) :
    (∃ n, firstAnswer rest = .ok (.integer n)) ∨
      ∃ c position, firstAnswer rest = .error (.invalidCharacter c position) := by
  cases rest with
  | nil => exact absurd rfl more
  | cons item rest =>
    obtain ⟨lexeme, position⟩ := item
    cases lexeme with
    | integer n => exact .inl ⟨n, rfl⟩
    | operator op => cases ends
    | invalid c => exact .inr ⟨c, position, rfl⟩

/-- A line that comes to a number still does so with text added to it: with any text if
its expression ends before an integer or an invalid character, and if it ends with the
line, with text that neither goes on with an operator nor joins a digit to those of the
line. -/
theorem evaluate_append_text {number : Number} (evaluated : evaluate line = .ok number) :
    (expressionEnd line ≠ .ok .endOfInput →
        ((∃ n, expressionEnd line = .ok (.integer n)) ∨
          ∃ c position, expressionEnd line = .error (.invalidCharacter c position)) ∧
        ∀ text, evaluate (line ++ text) = .ok number) ∧
      (expressionEnd line = .ok .endOfInput → ∀ text,
        (∀ op : Operator, (text.dropWhile isBlank).head? ≠ some op.symbol) →
        (startsWithDigit text = true → endsWithBlank line = true) →
        evaluate (line ++ text) = .ok number) := by
  obtain ⟨first, applications, rest, opens, defined, rfl, stopped⟩ := exists_opensWith evaluated
  rw [← expressionEnd] at stopped
  rw [stopped]
  constructor
  · intro more
    refine ⟨firstAnswer_of_not_startsWithOperator opens.ends more, fun text => ?_⟩
    cases rest with
    | nil => exact absurd rfl more
    | cons item rest =>
      obtain ⟨later, opens⟩ := opens.append_of_cons text
      exact opens.evaluate_eq defined
  · intro whole text noOperator apart
    obtain rfl := eq_nil_of_firstAnswer whole
    have ends := not_startsWithOperator_itemsFrom noOperator (1 + line.length)
    have opens := opens.append_of_nil (separate_of_endsWithBlank apart) ends
    exact opens.evaluate_eq defined

/-- A digit that joins an integer after the expression, and one after a blank at the end
of the line. -/
theorem evaluate_append_text_digit :
    evaluate "7-9 3".toList = .ok ⟨-.ofNat 2, false⟩ ∧
      evaluate "7-9 34*5".toList = .ok ⟨-.ofNat 2, false⟩ ∧
      evaluate "8/2\u3000".toList = .ok ⟨.ofNat 4, true⟩ ∧
      evaluate "8/2\u30001+".toList = .ok ⟨.ofNat 4, true⟩ := by
  have followed : evaluate "7-9 3".toList = .ok ⟨-.ofNat 2, false⟩ := by decide +kernel
  have before : expressionEnd "7-9 3".toList ≠ .ok .endOfInput := by decide +kernel
  have whole : evaluate "8/2\u3000".toList = .ok ⟨.ofNat 4, true⟩ := by decide +kernel
  have ends : expressionEnd "8/2\u3000".toList = .ok .endOfInput := by decide +kernel
  have noOperator (op : Operator) : ("1+".toList.dropWhile isBlank).head? ≠ some op.symbol := by
    cases op <;> decide
  have added := ((evaluate_append_text followed).1 before).2 "4*5".toList
  have later := (evaluate_append_text whole).2 ends "1+".toList noOperator fun _ => rfl
  exact ⟨followed, added, whole, later⟩

end LineCalc
