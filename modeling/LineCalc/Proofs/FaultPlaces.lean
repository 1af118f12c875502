import LineCalc.Proofs.Evaluation
import LineCalc.Proofs.Whole

/-!
# Places of faults

A line fails at the first place where nothing that may follow could make it right.
`FaultAt` says what a line with a given fault looks like: up to the fault it is an
expression that still lacks an integer, or a whole one that is then divided by zero.
These are all the lines that fail (`evaluate_eq_error_iff`), so the text before a
fault can be completed and the text after it cannot undo it
(`evaluate_error_earliest_final`).
-/

namespace LineCalc

/-! ## Unfinished expressions -/

/-- Items that are an expression. -/
inductive Complete : List Item → Prop where
  | intro (n position : Nat) (applications : List Application)
      (defined : ∀ a ∈ applications, a.dividesByZero = false) :
      Complete (⟨.integer n, position⟩ :: applicationItems applications)

/-- Items that an integer has to follow. -/
inductive AwaitsInteger : List Item → Prop where
  | start : AwaitsInteger []
  | operator {before : List Item} (complete : Complete before) (op : Operator)
      (position : Nat) : AwaitsInteger (before ++ [⟨.operator op, position⟩])

variable {before rest ahead : List Item}

theorem AwaitsInteger.course_of_not_startsWithInteger (awaits : AwaitsInteger before)
    (lacks : startsWithInteger rest = false) (stop : Nat) :
    Course stop (before ++ rest) (.error (.read (missingInteger stop rest))) before.length := by
  cases awaits with
  | start => exact .noFirst lacks
  | operator complete op position =>
    obtain ⟨n, place, applications, defined⟩ := complete
    have course : OperatorCourse stop ⟨.ofNat n, false⟩
        (applicationItems applications ++ ⟨.operator op, position⟩ :: rest) _ _ :=
      .missing applications defined lacks
    have whole : Course stop (⟨.integer n, place⟩ :: _) _ _ := .operators course
    simpa using whole

/-- Whatever is due may be supplied: with an integer other than zero the
expression is complete. -/
theorem AwaitsInteger.course_of_ne_zero (awaits : AwaitsInteger before) {n : Nat}
    (nonzero : n ≠ 0) (stop position : Nat) :
    ∃ number taken, Course stop (before ++ [⟨.integer n, position⟩]) (.ok number) taken := by
  have applied : (Binary64.ofNat n).isZero = false := by
    rw [Bool.eq_false_iff, ne_eq, Binary64.isZero_ofNat]
    exact nonzero
  cases awaits with
  | start => exact ⟨_, _, .operators (.finished [] (List.forall_mem_nil _) rfl)⟩
  | operator complete op place =>
    obtain ⟨first, start, applications, defined⟩ := complete
    let last : Application := ⟨op, place, n, position⟩
    have all : ∀ a ∈ applications ++ [last], a.dividesByZero = false := by
      refine List.forall_mem_append.2 ⟨defined, List.forall_mem_singleton.2 ?_⟩
      simp only [last, Application.dividesByZero, applied, Bool.and_false]
    have course : OperatorCourse stop ⟨.ofNat first, false⟩
        (applicationItems (applications ++ [last]) ++ []) _ _ :=
      .finished (applications ++ [last]) all rfl
    rw [applicationItems_append, List.append_nil] at course
    rw [List.append_assoc]
    exact ⟨_, _, .operators course⟩

theorem Complete.course_of_zero (complete : Complete before)
    (stop position operandPosition : Nat) (rest : List Item) :
    Course stop
      (before ++ ⟨.operator .div, position⟩ :: ⟨.integer 0, operandPosition⟩ :: rest)
      (.error (.arithmetic (.divisionByZero position))) (before.length + 2) := by
  obtain ⟨n, place, applications, defined⟩ := complete
  have course : OperatorCourse stop ⟨.ofNat n, false⟩
      (applicationItems applications ++
        ⟨.operator .div, position⟩ :: ⟨.integer 0, operandPosition⟩ :: rest) _ _ :=
    .zeroDivisor applications defined (Binary64.isZero_ofNat.2 rfl)
  have whole : Course stop (⟨.integer n, place⟩ :: _) _ _ := .operators course
  simpa using whole

theorem Course.exists_awaitsInteger {stop : Nat} {error : ReadError} {taken : Nat}
    (course : Course stop ahead (.error (.read error)) taken) :
    ∃ before rest, ahead = before ++ rest ∧ AwaitsInteger before ∧
      startsWithInteger rest = false ∧ error = missingInteger stop rest := by
  cases course with
  | noFirst lacks => exact ⟨[], ahead, rfl, .start, lacks, rfl⟩
  | @operators n place _ _ _ course =>
    cases course with
    | @missing applications op position rest defined lacks =>
      have awaits := AwaitsInteger.operator (.intro n place applications defined) op position
      refine ⟨_, rest, ?_, awaits, lacks, rfl⟩
      simp

theorem Course.exists_complete {stop : Nat} {error : ArithmeticError} {taken : Nat}
    (course : Course stop ahead (.error (.arithmetic error)) taken) :
    ∃ before position operandPosition rest,
      ahead = before ++ ⟨.operator .div, position⟩ :: ⟨.integer 0, operandPosition⟩ :: rest ∧
      Complete before ∧ error = .divisionByZero position := by
  cases course with
  | @operators n place _ _ _ course =>
    cases course with
    | @zeroDivisor applications position m operandPosition rest defined zero =>
      obtain rfl := Binary64.isZero_ofNat.1 zero
      exact ⟨_, position, operandPosition, rest, rfl, .intro n place applications defined, rfl⟩

/-! ## Single characters -/

theorem Lexeme.symbol_of_single {c : Char} {op : Operator} (found : single c = operator op) :
    op.symbol = c := by
  rw [← ofChar_eq_single, ofChar] at found
  split at found
  next spelled =>
    cases found
    exact Operator.symbol_of_ofChar? spelled
  next => cases found

/-- The fault of a character that is neither blank nor a digit in the place of an
integer. -/
def misplaced (c : Char) (position : Nat) : ReadError :=
  match Operator.ofChar? c with
  | some op => .unexpectedToken .integer (.operator op) position
  | none => .invalidCharacter c position

theorem missingInteger_single (stop position : Nat) (c : Char) (rest : List Item) :
    missingInteger stop (⟨.single c, position⟩ :: rest) = misplaced c position := by
  rw [← Lexeme.ofChar_eq_single, Lexeme.ofChar, misplaced]
  cases Operator.ofChar? c <;> rfl

theorem startsWithInteger_single (position : Nat) (c : Char) (rest : List Item) :
    startsWithInteger (⟨.single c, position⟩ :: rest) = false := by
  rw [← Lexeme.ofChar_eq_single, Lexeme.ofChar]
  cases Operator.ofChar? c <;> rfl

/-- An item that is no integer is one character. -/
theorem CutBefore.eq_single {position : Nat} {digit : Bool} {front back : List Char} {c : Char}
    {before after : List Item} {item : Item}
    (cut : CutBefore digit position front c back before item after)
    (noInteger : startsWithInteger (item :: after) = false) :
    c.isDigit = false ∧ item = ⟨.single c, position + front.length⟩ ∧
      after = itemsFrom (position + front.length + 1) back := by
  have later := cut.items_back
  cases isDigit : c.isDigit with
  | true =>
    rw [itemsFrom_cons_of_isDigit isDigit] at later
    rw [← later] at noInteger
    cases noInteger
  | false =>
    rw [itemsFrom_cons_single isDigit cut.not_isBlank, cut.position_eq] at later
    obtain ⟨rfl, rfl⟩ := List.cons.inj later
    exact ⟨rfl, rfl, rfl⟩

/-! ## The end of a text -/

/-- A text that ends in a digit ends in an integer, unless it only carries on the
digits before it. -/
theorem itemsAfter_of_digitAfter {digit : Bool} {text : List Char}
    (ends : digitAfter digit text = true) (position : Nat) :
    (digit = true ∧ itemsAfter digit position text = []) ∨
      ∃ before n place, itemsAfter digit position text = before ++ [⟨.integer n, place⟩] := by
  induction text generalizing digit position with
  | nil => exact .inl ⟨ends, rfl⟩
  | cons c rest induction =>
    rw [digitAfter_cons] at ends
    rw [itemsAfter]
    rcases induction ends (position + 1) with ⟨isDigit, none⟩ | ⟨before, n, place, last⟩
    · rw [none, List.append_nil]
      cases digit with
      | true => exact .inl ⟨rfl, by simp [beginning?, isDigit]⟩
      | false =>
        refine .inr ⟨[], Lexeme.decimalValue ((c :: rest).takeWhile Char.isDigit), position, ?_⟩
        simp [beginning?, isDigit]
    · rw [last, ← List.append_assoc]
      exact .inr ⟨_, n, place, rfl⟩

/-- After an unfinished expression a digit begins an integer. -/
theorem AwaitsInteger.digitAfter_eq_false {text : List Char} {position : Nat}
    (awaits : AwaitsInteger (itemsFrom position text)) : digitAfter false text = false := by
  rw [Bool.eq_false_iff]
  intro ends
  rcases itemsAfter_of_digitAfter ends position with ⟨digit, -⟩ | ⟨before, n, place, last⟩
  · cases digit
  · rw [itemsFrom, last] at awaits
    generalize same : before ++ [(⟨.integer n, place⟩ : Item)] = whole at awaits
    cases awaits with
    | start => simp at same
    | operator complete op position =>
      have item := (List.append_inj' same rfl).2
      cases item

theorem isBlank_of_itemsFrom_eq_nil {text : List Char} {position : Nat}
    (none : itemsFrom position text = []) : ∀ c ∈ text, isBlank c = true := by
  induction text generalizing position with
  | nil => exact List.forall_mem_nil _
  | cons c rest induction =>
    cases digit : c.isDigit with
    | true => simp [itemsFrom_cons_of_isDigit digit] at none
    | false =>
      cases blank : isBlank c with
      | true =>
        rw [itemsFrom_cons_of_isBlank blank] at none
        exact List.forall_mem_cons.2 ⟨blank, induction none⟩
      | false => simp [itemsFrom_cons_single digit blank] at none

theorem exists_zeros_of_itemsFrom {text : List Char} {position place : Nat} {rest : List Item}
    (found : itemsFrom position text = ⟨.integer 0, place⟩ :: rest) :
    ∃ blanks zeros back, text = blanks ++ (zeros ++ back) ∧
      (∀ c ∈ blanks, isBlank c = true) ∧ zeros ≠ [] ∧ (∀ c ∈ zeros, c = '0') ∧
      startsWithDigit back = false := by
  have split : itemsAfter false position text = [] ++ ⟨.integer 0, place⟩ :: rest := found
  obtain ⟨blanks, c, tail, rfl, cut⟩ := exists_cutBefore split
  have blank := isBlank_of_itemsFrom_eq_nil cut.items_front
  have later := cut.items_back
  cases digit : c.isDigit with
  | true =>
    rw [itemsFrom_cons_of_isDigit digit] at later
    have first := (List.cons.inj later).1
    have value : digitsValue ((c :: tail).takeWhile Char.isDigit) = 0 := by
      rw [Lexeme.digitsValue_eq_decimalValue]
      simpa using first
    refine ⟨blanks, (c :: tail).takeWhile Char.isDigit, (c :: tail).dropWhile Char.isDigit,
      ?_, blank, ?_, ?_, startsWithDigit_dropWhile _⟩
    · rw [List.takeWhile_append_dropWhile]
    · simp [digit]
    · exact eq_zero_of_digitsValue (isDigit_of_mem_takeWhile _) value
  | false =>
    rw [itemsFrom_cons_single digit cut.not_isBlank] at later
    have starts := startsWithInteger_single place c (itemsFrom (place + 1) tail)
    rw [later] at starts
    cases starts

/-! ## Faulty lines -/

/-- The look of a line with a fault. -/
inductive FaultAt : List Char → LineError → Prop where
  | endOfLine {line : List Char} (awaits : AwaitsInteger (items line)) :
      FaultAt line (.read (.unexpectedToken .integer .endOfInput (line.length + 1)))
  | character {front back : List Char} {c : Char} (awaits : AwaitsInteger (items front))
      (noDigit : c.isDigit = false) (noBlank : isBlank c = false) :
      FaultAt (front ++ c :: back) (.read (misplaced c (front.length + 1)))
  | division {front blanks zeros rest : List Char} (complete : Complete (items front))
      (blank : ∀ c ∈ blanks, isBlank c = true) (nonempty : zeros ≠ [])
      (zero : ∀ c ∈ zeros, c = '0') (ends : startsWithDigit rest = false) :
      FaultAt (front ++ '/' :: (blanks ++ (zeros ++ rest)))
        (.arithmetic (.divisionByZero (front.length + 1)))

theorem items_append_cons_single {c : Char} (noDigit : c.isDigit = false)
    (noBlank : isBlank c = false) (front back : List Char) :
    items (front ++ c :: back) =
      items front ++ ⟨.single c, front.length + 1⟩ :: itemsFrom (front.length + 2) back := by
  have apart : Separate front (c :: back) := separate_of_not_startsWithDigit noDigit
  rw [items, itemsFrom_append apart, itemsFrom_cons_single noDigit noBlank, items,
    Nat.add_comm 1]

theorem items_division (front : List Char) {blanks zeros rest : List Char}
    (blank : ∀ c ∈ blanks, isBlank c = true) (nonempty : zeros ≠ [])
    (zero : ∀ c ∈ zeros, c = '0') (ends : startsWithDigit rest = false) :
    ∃ place later, items (front ++ '/' :: (blanks ++ (zeros ++ rest))) =
      items front ++ ⟨.operator .div, front.length + 1⟩ :: ⟨.integer 0, place⟩ :: later := by
  have digits : ∀ c ∈ zeros, c.isDigit = true := by
    intro c membership
    rw [zero c membership]
    rfl
  rw [items_append_cons_single rfl rfl, itemsFrom_blanks_append blank,
    itemsFrom_digits_append nonempty digits ends, ← Lexeme.digitsValue_eq_decimalValue,
    digitsValue_of_zeros zero]
  exact ⟨_, _, rfl⟩

theorem FaultAt.evaluate_eq {line : List Char} {error : LineError} (fault : FaultAt line error) :
    evaluate line = .error error := by
  cases fault with
  | endOfLine awaits =>
    have lacks : startsWithInteger [] = false := rfl
    have course := awaits.course_of_not_startsWithInteger lacks (line.length + 1)
    rw [List.append_nil] at course
    exact evaluate_of_course course
  | @character front back c awaits noDigit noBlank =>
    have lacks := startsWithInteger_single (front.length + 1) c
      (itemsFrom (front.length + 2) back)
    have course := awaits.course_of_not_startsWithInteger lacks ((front ++ c :: back).length + 1)
    rw [missingInteger_single, ← items_append_cons_single noDigit noBlank] at course
    exact evaluate_of_course course
  | @division front blanks zeros rest complete blank nonempty zero ends =>
    obtain ⟨place, later, found⟩ := items_division front blank nonempty zero ends
    have course := complete.course_of_zero
      ((front ++ '/' :: (blanks ++ (zeros ++ rest))).length + 1) (front.length + 1) place later
    rw [← found] at course
    exact evaluate_of_course course

theorem faultAt_of_evaluate {line : List Char} {error : LineError}
    (failed : evaluate line = .error error) : FaultAt line error := by
  obtain ⟨answer, taken, course⟩ := exists_course (line.length + 1) (items line)
  obtain rfl : answer = .error error := (evaluate_of_course course).symm.trans failed
  cases error with
  | read error =>
    obtain ⟨before, rest, found, awaits, lacks, rfl⟩ := course.exists_awaitsInteger
    cases rest with
    | nil =>
      rw [List.append_nil] at found
      rw [← found] at awaits
      exact .endOfLine awaits
    | cons item after =>
      obtain ⟨front, c, back, rfl, cut⟩ := exists_cutBefore found
      obtain ⟨noDigit, rfl, -⟩ := cut.eq_single lacks
      rw [← cut.items_front] at awaits
      rw [missingInteger_single, Nat.add_comm 1]
      exact .character awaits noDigit cut.not_isBlank
  | arithmetic error =>
    obtain ⟨before, position, operandPosition, rest, found, complete, rfl⟩ :=
      course.exists_complete
    obtain ⟨front, c, back, rfl, cut⟩ := exists_cutBefore found
    obtain ⟨-, single, later⟩ := cut.eq_single rfl
    obtain ⟨spelled, rfl⟩ := Item.mk.inj single
    obtain rfl := Lexeme.symbol_of_single spelled.symm
    obtain ⟨blanks, zeros, tail, rfl, blank, nonempty, zero, ends⟩ :=
      exists_zeros_of_itemsFrom later.symm
    rw [← cut.items_front] at complete
    rw [Nat.add_comm 1]
    exact .division complete blank nonempty zero ends

/-- Which lines fail, and how. -/
theorem evaluate_eq_error_iff {line : List Char} {error : LineError} :
    evaluate line = .error error ↔ FaultAt line error :=
  ⟨faultAt_of_evaluate, FaultAt.evaluate_eq⟩

/-! ## Before and after a fault -/

/-- The character at a position, counted from 1. -/
def characterAt? (text : List Char) : Nat → Option Char
  | 0 => none
  | index + 1 => text[index]?

theorem characterAt?_append_cons (front back : List Char) (c : Char) :
    characterAt? (front ++ c :: back) (front.length + 1) = some c := by
  simp [characterAt?]

theorem take_append_cons (front back : List Char) (c : Char) :
    (front ++ c :: back).take (front.length + 1) = front ++ [c] := by
  rw [List.append_cons]
  exact List.take_left' (by simp)

/-- What a fault says about its place is true of the line. -/
def LineError.Describes (line : List Char) : LineError → Prop
  | .read (.invalidCharacter c position) =>
    characterAt? line position = some c ∧ isBlank c = false ∧ c.isDigit = false ∧
      ∀ op : Operator, op.symbol ≠ c
  | .read (.unexpectedToken expected found position) =>
    expected = .integer ∧
      ((∃ op, found = .operator op ∧ characterAt? line position = some op.symbol) ∨
        found = .endOfInput ∧ position = line.length + 1)
  | .arithmetic (.divisionByZero position) => characterAt? line position = some '/'

/-- The text that a fault leaves no doubt about.  The operator that divides by zero
is part of it. -/
def LineError.textBefore (line : List Char) : LineError → List Char
  | .read error => line.take (error.position - 1)
  | .arithmetic error => line.take error.position

/-- The fault stays whatever is written in the place of the text after it.  A
division by zero goes on to the end of its zeros. -/
def LineError.Final (line : List Char) : LineError → Prop
  | .read error => error.position ≤ line.length → ∀ text,
      evaluate (line.take error.position ++ text) = .error (.read error)
  | .arithmetic error => ∃ blanks zeros rest,
      line = line.take error.position ++ (blanks ++ (zeros ++ rest)) ∧
      (∀ c ∈ blanks, isBlank c = true) ∧ zeros ≠ [] ∧ (∀ c ∈ zeros, c = '0') ∧
      startsWithDigit rest = false ∧
      ∀ text, startsWithDigit text = false →
        evaluate (line.take error.position ++ (blanks ++ (zeros ++ text))) =
          .error (.arithmetic error)

theorem misplaced_position (c : Char) (position : Nat) :
    (misplaced c position).position = position := by
  rw [misplaced]
  cases Operator.ofChar? c <;> rfl

theorem describes_misplaced {front back : List Char} {c : Char} (noDigit : c.isDigit = false)
    (noBlank : isBlank c = false) :
    LineError.Describes (front ++ c :: back) (.read (misplaced c (front.length + 1))) := by
  have place := characterAt?_append_cons front back c
  rw [misplaced]
  cases spelled : Operator.ofChar? c with
  | none =>
    refine ⟨place, noBlank, noDigit, ?_⟩
    rintro op rfl
    rw [Operator.ofChar?_symbol] at spelled
    cases spelled
  | some op =>
    obtain rfl := Operator.symbol_of_ofChar? spelled
    exact ⟨rfl, .inl ⟨op, rfl, place⟩⟩

theorem evaluate_append_one {front : List Char} (awaits : AwaitsInteger (items front)) :
    ∃ number, evaluate (front ++ ['1']) = .ok number := by
  have apart : Separate front ['1'] := by
    intro ends
    rw [awaits.digitAfter_eq_false] at ends
    cases ends
  have found : items (front ++ ['1']) = items front ++ [⟨.integer 1, 1 + front.length⟩] :=
    itemsFrom_append apart 1
  obtain ⟨number, taken, course⟩ :=
    awaits.course_of_ne_zero Nat.one_ne_zero ((front ++ ['1']).length + 1) (1 + front.length)
  rw [← found] at course
  exact ⟨number, evaluate_of_course course⟩

/-- A fault is reported at the first place that it may be, and for good: it says
what stands there, the text before it can be completed, and no other text after it
makes the line right. -/
theorem evaluate_error_earliest_final {line : List Char} {error : LineError}
    (failed : evaluate line = .error error) :
    error.Describes line ∧
      (∃ number, evaluate (error.textBefore line ++ ['1']) = .ok number) ∧
      error.Final line := by
  cases faultAt_of_evaluate failed with
  | endOfLine awaits =>
    refine ⟨⟨rfl, .inr ⟨rfl, rfl⟩⟩, ?_, ?_⟩
    · have whole : line.take (line.length + 1 - 1) = line := List.take_length
      rw [LineError.textBefore, ReadError.position, whole]
      exact evaluate_append_one awaits
    · intro inside
      exact absurd inside (Nat.not_succ_le_self line.length)
  | @character front back c awaits noDigit noBlank =>
    refine ⟨describes_misplaced noDigit noBlank, ?_, ?_⟩
    · rw [LineError.textBefore, misplaced_position, Nat.add_sub_cancel, List.take_left]
      exact evaluate_append_one awaits
    · intro _ text
      rw [misplaced_position, take_append_cons, List.append_assoc]
      exact (FaultAt.character awaits noDigit noBlank).evaluate_eq
  | @division front blanks zeros rest complete blank nonempty zero ends =>
    have place := take_append_cons front (blanks ++ (zeros ++ rest)) '/'
    refine ⟨characterAt?_append_cons front _ '/', ?_,
      blanks, zeros, rest, ?_, blank, nonempty, zero, ends, ?_⟩
    · rw [LineError.textBefore, ArithmeticError.position, place]
      refine evaluate_append_one ?_
      rw [items_append_cons_single rfl rfl]
      exact .operator complete .div _
    · rw [ArithmeticError.position, place, List.append_assoc]
      rfl
    · intro text later
      rw [ArithmeticError.position, place, List.append_assoc]
      exact (FaultAt.division complete blank nonempty zero later).evaluate_eq

/-- A division by zero between blanks, with more of the line after it. -/
theorem evaluate_error_earliest_final_division :
    evaluate "7 / 00 @".toList = .error (.arithmetic (.divisionByZero 3)) ∧
      LineError.Describes "7 / 00 @".toList (.arithmetic (.divisionByZero 3)) ∧
      (∃ number, evaluate "7 /1".toList = .ok number) ∧
      LineError.Final "7 / 00 @".toList (.arithmetic (.divisionByZero 3)) := by
  have failed : evaluate "7 / 00 @".toList = .error (.arithmetic (.divisionByZero 3)) := by
    decide +kernel
  exact ⟨failed, evaluate_error_earliest_final failed⟩

end LineCalc
