import LineCalc.Proofs.CursorRuns
import LineCalc.Proofs.FaultPlaces
import LineCalc.Proofs.MovedPositions

/-!
# Tokens and results

Listing the tokens of a line stops at the first character that starts none, while
evaluating it stops where the expression ends, and such a character counts only in
the place of an integer.  Still the two agree.

If a line has tokens, they determine what it comes to: the course over the items of the
line is the course over its tokens by number, with each number replaced by the position
of that token (`evaluate_of_course_numbered`).  If it has none, the text before the first
invalid character determines it: either that text is evaluated to the same answer
(`InvalidAfter.evaluate_eq`), or it lacks an integer at its end and the character is at
fault (`InvalidAfter.evaluate_of_missing`).
-/

namespace LineCalc

variable {stop taken : Nat} {ahead : List Item} {answer : Except LineError Number}

/-! ## Items that faults speak of -/

theorem missingInteger_cons (first second : Nat) (item : Item) (rest tail : List Item) :
    missingInteger first (item :: rest) = missingInteger second (item :: tail) := by
  obtain ⟨lexeme, position⟩ := item
  cases lexeme <;> rfl

theorem missingInteger_cons_ne (stop : Nat) (item : Item) (rest : List Item) :
    missingInteger stop (item :: rest) ≠ missingInteger stop [] := by
  obtain ⟨lexeme, position⟩ := item
  cases lexeme <;> intro same <;> cases same

theorem position_missingInteger (stop : Nat) (item : Item) (rest : List Item) :
    (missingInteger stop (item :: rest)).position = item.position := by
  obtain ⟨lexeme, position⟩ := item
  cases lexeme <;> rfl

/-- A fault is at an item or at the end of the line. -/
theorem Course.position_eq_or_mem {error : LineError}
    (course : Course stop ahead (.error error) taken) :
    error.position = stop ∨ ∃ item ∈ ahead, item.position = error.position := by
  cases error with
  | read error =>
    obtain ⟨before, rest, rfl, -, -, rfl⟩ := course.exists_awaitsInteger
    cases rest with
    | nil => exact .inl rfl
    | cons item rest =>
      refine .inr ⟨item, ?_, (position_missingInteger stop item rest).symm⟩
      simp
  | arithmetic error =>
    obtain ⟨before, position, operandPosition, rest, rfl, -, rfl⟩ := course.exists_complete
    refine .inr ⟨⟨.operator .div, position⟩, ?_, rfl⟩
    simp

/-- An invalid character that is at fault is one of the items. -/
theorem Course.invalid_mem {c : Char} {position : Nat}
    (course : Course stop ahead (.error (.read (.invalidCharacter c position))) taken) :
    ⟨.invalid c, position⟩ ∈ ahead := by
  obtain ⟨before, rest, rfl, -, lacks, same⟩ := course.exists_awaitsInteger
  cases rest with
  | nil => cases same
  | cons item rest =>
    obtain ⟨lexeme, place⟩ := item
    cases lexeme with
    | integer n => cases lacks
    | operator op => cases same
    | invalid character =>
      cases same
      simp

/-! ## Tokens by number -/

/-- The position of the token with an index, counted from 0; past the last one it is
that of the end of the line. -/
def tokenPosition (line : List Char) (index : Nat) : Nat :=
  ((Token.Stream.ofLine line).scan (index + 1)).position

theorem tokenPosition_eq (line : List Char) (index : Nat) :
    tokenPosition line index = firstPosition (line.length + 1) (itemsAhead line index) := by
  have stands := Cursor.onItem_skip_ofLine line index
  rw [tokenPosition, ← stands.stream, ← stands.inStep]
  exact stands.position

/-- Lexemes as items, with their numbers for positions. -/
def numberedFrom (index : Nat) : List Lexeme → List Item
  | [] => []
  | lexeme :: rest => ⟨lexeme, index⟩ :: numberedFrom (index + 1) rest

theorem position_of_mem_numberedFrom {index : Nat} {lexemes : List Lexeme} {item : Item}
    (membership : item ∈ numberedFrom index lexemes) :
    item.position < index + lexemes.length := by
  induction lexemes generalizing index with
  | nil => cases membership
  | cons lexeme rest induction =>
    rw [List.length_cons]
    rcases List.mem_cons.1 membership with rfl | later
    · simp only
      omega
    · have below := induction later
      omega

theorem lexeme_of_mem_numberedFrom {index : Nat} {lexemes : List Lexeme} {item : Item}
    (membership : item ∈ numberedFrom index lexemes) : item.lexeme ∈ lexemes := by
  induction lexemes generalizing index with
  | nil => cases membership
  | cons lexeme rest induction =>
    rcases List.mem_cons.1 membership with rfl | later
    · exact List.mem_cons_self
    · exact List.mem_cons_of_mem lexeme (induction later)

theorem numberedFrom_map {f : Nat → Nat} {stop index : Nat} {items : List Item}
    (places : ∀ k, f (index + k) = firstPosition stop (items.drop k)) :
    (numberedFrom index (items.map Item.lexeme)).map (Item.mapPosition f) = items := by
  induction items generalizing index with
  | nil => rfl
  | cons item rest induction =>
    have first : f index = item.position := places 0
    have later : ∀ k, f (index + 1 + k) = firstPosition stop (rest.drop k) := by
      intro k
      rw [Nat.add_assoc, Nat.add_comm 1 k]
      exact places (k + 1)
    rw [List.map_cons, numberedFrom, List.map_cons, induction later, Item.mapPosition, first]

/-- A line takes the course of its lexemes by number. -/
theorem evaluate_of_course_numbered (line : List Char) {lexemes : List Lexeme}
    (same : (items line).map Item.lexeme = lexemes)
    (course : Course lexemes.length (numberedFrom 0 lexemes) answer taken) :
    evaluate line = answer.mapError (LineError.mapPosition (tokenPosition line)) := by
  subst same
  have places : ∀ k, tokenPosition line (0 + k) =
      firstPosition (line.length + 1) ((items line).drop k) := by
    intro k
    rw [Nat.zero_add]
    exact tokenPosition_eq line k
  have ends : tokenPosition line ((items line).map Item.lexeme).length = line.length + 1 := by
    rw [tokenPosition_eq, itemsAhead, List.length_map, List.drop_length]
    rfl
  have moved := course.mapPosition (tokenPosition line)
  rw [ends, numberedFrom_map places] at moved
  exact evaluate_of_course moved

/-! ## Lines with tokens -/

/-- The lexeme that a token is, if it is one. -/
def Token.lexeme? : Token → Option Lexeme
  | .integer n => some (.integer n)
  | .operator op => some (.operator op)
  | .endOfInput => none

theorem Item.lexeme?_of_answer {item : Item} {token : Token} (found : item.answer = .ok token) :
    token.lexeme? = some item.lexeme := by
  obtain ⟨lexeme, position⟩ := item
  cases lexeme with
  | integer n => cases found; rfl
  | operator op => cases found; rfl
  | invalid c => cases found

/-- The tokens of a line without a fault tell its lexemes. -/
theorem lexemes_of_tokensOf {items : List Item} {tokens : List Token}
    (found : tokensOf items = .ok tokens) :
    items.map Item.lexeme = tokens.filterMap Token.lexeme? ∧
      tokens.length = items.length + 1 := by
  induction items generalizing tokens with
  | nil => cases found; exact ⟨rfl, rfl⟩
  | cons item rest induction =>
    obtain ⟨token, others, first, later, rfl⟩ := exists_of_tokensOf_cons found
    obtain ⟨lexemes, length⟩ := induction later
    rw [List.map_cons, List.filterMap_cons, Item.lexeme?_of_answer first, lexemes,
      List.length_cons, length]
    exact ⟨rfl, rfl⟩

theorem not_invalid_of_lexeme? {token : Token} {lexeme : Lexeme}
    (found : token.lexeme? = some lexeme) (c : Char) : lexeme ≠ .invalid c := by
  rintro rfl
  cases token <;> cases found

/-- Tokens come from valid items only. -/
theorem valid_of_tokensOf {items : List Item} {tokens : List Token}
    (found : tokensOf items = .ok tokens) :
    ∀ item ∈ items, ∀ c, item.lexeme ≠ .invalid c := by
  intro item membership c
  have lexeme : item.lexeme ∈ items.map Item.lexeme := List.mem_map_of_mem membership
  rw [(lexemes_of_tokensOf found).1] at lexeme
  obtain ⟨token, -, spelled⟩ := List.mem_filterMap.1 lexeme
  exact not_invalid_of_lexeme? spelled c

/-- Two lines come to the same, or fail with the same fault at the same of their first
`count` tokens, which is no invalid character. -/
inductive AgreeOn (count : Nat) (a b : List Char) : Prop where
  | result (number : Number) (first : evaluate a = .ok number) (second : evaluate b = .ok number)
  | fault (error : LineError) (index : Nat) (inside : index < count)
      (valid : ∀ c position, error ≠ .read (.invalidCharacter c position))
      (first : evaluate a = .error (error.mapPosition fun _ => tokenPosition a index))
      (second : evaluate b = .error (error.mapPosition fun _ => tokenPosition b index))

theorem LineError.mapPosition_eq (f : Nat → Nat) (error : LineError) :
    error.mapPosition f = error.mapPosition fun _ => f error.position := by
  cases error with
  | read error => cases error <;> rfl
  | arithmetic error => cases error; rfl

/-- Lines with the same tokens agree. -/
theorem agreeOn_of_tokenize {a b : List Char} {tokens : List Token}
    (first : tokenize a = .ok tokens) (second : tokenize b = .ok tokens) :
    AgreeOn tokens.length a b := by
  have listed := tokenize_eq_ok_iff_tokensOf.1 first
  obtain ⟨lexemes, length⟩ := lexemes_of_tokensOf listed
  obtain ⟨others, -⟩ := lexemes_of_tokensOf (tokenize_eq_ok_iff_tokensOf.1 second)
  generalize tokens.filterMap Token.lexeme? = all at lexemes others
  have count : tokens.length = all.length + 1 := by
    rw [length, ← lexemes, List.length_map]
  obtain ⟨answer, taken, course⟩ := exists_course all.length (numberedFrom 0 all)
  have left := evaluate_of_course_numbered a lexemes course
  have right := evaluate_of_course_numbered b others course
  cases answer with
  | ok number => exact .result number left right
  | error error =>
    rw [Except.mapError, LineError.mapPosition_eq] at left right
    refine .fault error error.position ?_ ?_ left right
    · rcases course.position_eq_or_mem with place | ⟨item, membership, place⟩
      · omega
      · have below := position_of_mem_numberedFrom membership
        omega
    · rintro c position rfl
      have invalid := lexeme_of_mem_numberedFrom course.invalid_mem
      rw [← lexemes] at invalid
      obtain ⟨item, membership, spelled⟩ := List.mem_map.1 invalid
      exact valid_of_tokensOf listed item membership c spelled

/-! ## Lines with an invalid character -/

/-- Whether items start with an operator is seen from the first of them. -/
theorem startsWithOperator_cons (item : Item) (rest tail : List Item) :
    startsWithOperator (item :: rest) = startsWithOperator (item :: tail) := by
  obtain ⟨lexeme, position⟩ := item
  cases lexeme <;> rfl

theorem startsWithInteger_cons (item : Item) (rest tail : List Item) :
    startsWithInteger (item :: rest) = startsWithInteger (item :: tail) := by
  obtain ⟨lexeme, position⟩ := item
  cases lexeme <;> rfl

/-- What follows a walk that did not run out of items plays no part, unless it goes on
with an operator. -/
theorem OperatorCourse.append {number : Number} {tail : List Item}
    (course : OperatorCourse stop number ahead answer taken)
    (enough : answer ≠ .error (.read (missingInteger stop [])))
    (ends : startsWithOperator tail = false) (later : Nat) :
    OperatorCourse later number (ahead ++ tail) answer taken := by
  cases course with
  | @finished applications rest defined closed =>
    rw [List.append_assoc]
    refine .finished applications defined ?_
    cases rest with
    | nil => exact ends
    | cons item rest => exact (startsWithOperator_cons item _ rest).trans closed
  | @missing applications op position rest defined lacks =>
    rw [List.append_assoc]
    cases rest with
    | nil => exact absurd rfl enough
    | cons item rest =>
      rw [missingInteger_cons stop later item rest (rest ++ tail)]
      exact .missing applications defined ((startsWithInteger_cons item _ rest).trans lacks)
  | zeroDivisor applications defined zero =>
    rw [List.append_assoc]
    exact .zeroDivisor applications defined zero

theorem Course.append {tail : List Item} (course : Course stop ahead answer taken)
    (enough : answer ≠ .error (.read (missingInteger stop [])))
    (ends : startsWithOperator tail = false) (later : Nat) :
    Course later (ahead ++ tail) answer taken := by
  cases course with
  | noFirst lacks =>
    cases ahead with
    | nil => exact absurd rfl enough
    | cons item rest =>
      rw [missingInteger_cons stop later item rest (rest ++ tail)]
      exact .noFirst ((startsWithInteger_cons item _ rest).trans lacks)
  | operators course => exact .operators (course.append enough ends later)

/-- A walk that ran out of items lacks an integer. -/
theorem Course.awaitsInteger
    (course : Course stop ahead (.error (.read (missingInteger stop []))) taken) :
    AwaitsInteger ahead := by
  obtain ⟨before, rest, rfl, awaits, -, same⟩ := course.exists_awaitsInteger
  cases rest with
  | nil => rwa [List.append_nil]
  | cons item rest => exact absurd same.symm (missingInteger_cons_ne stop item rest)

/-- The first fault in listing tokens is the first invalid character. -/
theorem exists_invalid_of_tokensOf {items : List Item} {error : ReadError}
    (failed : tokensOf items = .error error) :
    ∃ before c position after, items = before ++ ⟨.invalid c, position⟩ :: after ∧
      (∀ item ∈ before, ∀ character, item.lexeme ≠ .invalid character) ∧
      error = .invalidCharacter c position := by
  induction items with
  | nil => cases failed
  | cons item rest induction =>
    rw [tokensOf] at failed
    cases first : item.answer with
    | error fault =>
      rw [first] at failed
      obtain ⟨lexeme, position⟩ := item
      cases lexeme with
      | integer n => cases first
      | operator op => cases first
      | invalid c =>
        cases first
        cases failed
        exact ⟨[], c, position, rest, rfl, List.forall_mem_nil _, rfl⟩
    | ok token =>
      rw [first] at failed
      cases later : tokensOf rest with
      | ok others => rw [later] at failed; cases failed
      | error fault =>
        rw [later] at failed
        cases failed
        obtain ⟨before, c, position, after, rfl, valid, rfl⟩ := induction later
        refine ⟨item :: before, c, position, after, rfl, ?_, rfl⟩
        exact List.forall_mem_cons.2
          ⟨not_invalid_of_lexeme? (Item.lexeme?_of_answer first), valid⟩

theorem Lexeme.eq_of_single {first c : Char} (invalid : single first = .invalid c) :
    first = c := by
  rw [← ofChar_eq_single, ofChar] at invalid
  cases spelled : Operator.ofChar? first with
  | some op => rw [spelled] at invalid; cases invalid
  | none => rw [spelled] at invalid; cases invalid; rfl

/-- The line `front ++ c :: back` has its first invalid character after `front`. -/
structure InvalidAfter (front : List Char) (c : Char) (back : List Char) : Prop where
  valid : ∀ item ∈ items front, ∀ character, item.lexeme ≠ .invalid character
  items_eq : items (front ++ c :: back) =
    items front ++ ⟨.invalid c, front.length + 1⟩ :: itemsFrom (front.length + 2) back

theorem exists_invalidAfter {line : List Char} {error : LineError}
    (failed : tokenize line = .error error) :
    ∃ front c back, line = front ++ c :: back ∧ InvalidAfter front c back ∧
      error = .read (.invalidCharacter c (front.length + 1)) := by
  rw [tokenize_eq_tokensOf] at failed
  cases found : tokensOf (items line) with
  | ok tokens => rw [found] at failed; cases failed
  | error fault =>
    rw [found] at failed
    cases failed
    obtain ⟨before, c, position, after, split, valid, rfl⟩ := exists_invalid_of_tokensOf found
    obtain ⟨front, first, back, rfl, cut⟩ := exists_cutBefore split
    obtain ⟨noDigit, single, -⟩ := cut.eq_single rfl
    obtain ⟨spelled, rfl⟩ := Item.mk.inj single
    obtain rfl := Lexeme.eq_of_single spelled.symm
    rw [← cut.items_front] at valid
    have whole := items_append_cons_single noDigit cut.not_isBlank front back
    rw [← spelled] at whole
    rw [Nat.add_comm 1]
    exact ⟨front, first, back, rfl, ⟨valid, whole⟩, rfl⟩

variable {front back : List Char} {c : Char}

/-- Text that lacks an integer at its end leaves the invalid character at fault. -/
theorem InvalidAfter.evaluate_of_missing (invalid : InvalidAfter front c back)
    (missing : evaluate front =
      .error (.read (.unexpectedToken .integer .endOfInput (front.length + 1)))) :
    evaluate (front ++ c :: back) = .error (.read (.invalidCharacter c (front.length + 1))) := by
  obtain ⟨answer, taken, course⟩ := exists_course (front.length + 1) (items front)
  obtain rfl := (evaluate_of_course course).symm.trans missing
  apply evaluate_of_course
  rw [invalid.items_eq]
  exact course.awaitsInteger.course_of_not_startsWithInteger rfl _

/-- Otherwise the text comes to the same without what follows it. -/
theorem InvalidAfter.evaluate_eq (invalid : InvalidAfter front c back)
    (enough : evaluate front ≠
      .error (.read (.unexpectedToken .integer .endOfInput (front.length + 1)))) :
    evaluate (front ++ c :: back) = evaluate front := by
  obtain ⟨answer, taken, course⟩ := exists_course (front.length + 1) (items front)
  have same := evaluate_of_course course
  rw [same] at enough ⊢
  apply evaluate_of_course
  rw [invalid.items_eq]
  exact course.append enough rfl _

/-- Text without invalid characters has no fault of that kind. -/
theorem evaluate_ne_invalid {line : List Char}
    (valid : ∀ item ∈ items line, ∀ character, item.lexeme ≠ .invalid character) (c : Char)
    (position : Nat) : evaluate line ≠ .error (.read (.invalidCharacter c position)) := by
  intro failed
  obtain ⟨answer, taken, course⟩ := exists_course (line.length + 1) (items line)
  obtain rfl := (evaluate_of_course course).symm.trans failed
  exact valid _ course.invalid_mem c rfl

/-! ## Both ways to read a line -/

/-- Lines with the same tokens agree.  A line with an invalid character comes to what
the text before the first one comes to, unless an integer is missing at the end of that
text: then this character is the fault.  So no other invalid character is ever one. -/
theorem tokenize_evaluate_agree :
    (∀ a b tokens, tokenize a = .ok tokens → tokenize b = .ok tokens →
        AgreeOn tokens.length a b) ∧
      (∀ line error, tokenize line = .error error →
        ∃ c position, error = .read (.invalidCharacter c position) ∧
          (evaluate (line.take (position - 1)) =
              .error (.read (.unexpectedToken .integer .endOfInput position)) →
            evaluate line = .error error) ∧
          (evaluate (line.take (position - 1)) ≠
              .error (.read (.unexpectedToken .integer .endOfInput position)) →
            evaluate line = evaluate (line.take (position - 1)))) ∧
      ∀ line c position, evaluate line = .error (.read (.invalidCharacter c position)) →
        tokenize line = .error (.read (.invalidCharacter c position)) := by
  refine ⟨fun a b tokens first second => agreeOn_of_tokenize first second, ?_, ?_⟩
  · intro line error failed
    obtain ⟨front, c, back, rfl, invalid, rfl⟩ := exists_invalidAfter failed
    have before : (front ++ c :: back).take (front.length + 1 - 1) = front := List.take_left
    refine ⟨c, front.length + 1, rfl, ?_, ?_⟩
    · rw [before]
      exact invalid.evaluate_of_missing
    · rw [before]
      exact invalid.evaluate_eq
  · intro line c position failed
    cases listed : tokenize line with
    | ok tokens =>
      have valid := valid_of_tokensOf (tokenize_eq_ok_iff_tokensOf.1 listed)
      exact absurd failed (evaluate_ne_invalid valid c position)
    | error error =>
      obtain ⟨front, first, back, rfl, invalid, rfl⟩ := exists_invalidAfter listed
      by_cases missing : evaluate front =
          .error (.read (.unexpectedToken .integer .endOfInput (front.length + 1)))
      · rw [invalid.evaluate_of_missing missing] at failed
        cases failed
        rfl
      · rw [invalid.evaluate_eq missing] at failed
        exact absurd failed (evaluate_ne_invalid invalid.valid c position)

/-- A division by zero under two spellings, and an invalid character in the place of an
integer. -/
theorem tokenize_evaluate_agree_division :
    AgreeOn 4 "7/0".toList " 7 / 00".toList ∧
      evaluate "1 +@".toList = .error (.read (.invalidCharacter '@' 4)) ∧
      tokenize "1 +@".toList = .error (.read (.invalidCharacter '@' 4)) := by
  have short : tokenize "7/0".toList =
      .ok [.integer 7, .operator .div, .integer 0, .endOfInput] := by
    decide +kernel
  have long : tokenize " 7 / 00".toList =
      .ok [.integer 7, .operator .div, .integer 0, .endOfInput] := by
    decide +kernel
  have listed : tokenize "1 +@".toList = .error (.read (.invalidCharacter '@' 4)) := by
    decide +kernel
  obtain ⟨agree, faulty, only⟩ := tokenize_evaluate_agree
  obtain ⟨c, position, same, missing, -⟩ := faulty _ _ listed
  cases same
  have failed := missing (by decide +kernel)
  exact ⟨agree _ _ _ short long, failed, only _ _ _ failed⟩

end LineCalc
