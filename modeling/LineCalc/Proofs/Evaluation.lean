import LineCalc.Proofs.Scanning
import LineCalc.Proofs.Walk

/-!
# Evaluation is the walk

A cursor *faces* items when it stands on the first of them and its stream is
ahead of the others; past the last item it stands on the end of the line.
Advancing a cursor drops the first item (`Faces.advance`), and evaluating the
expression from a cursor on follows the course of the walk over the items that
it faces: it has the same answer and advances by as many items
(`Faces.expression`).  Hence a line comes to what the walk over its items comes
to (`evaluate_eq_walk`).

A line that comes to a number opens with an expression whose operators are all
applied, and the cursor then stands on what follows (`exists_opensWith`).
-/

namespace LineCalc

/-! ## Cursors that face items -/

/-- The token or the fault at the head of items. -/
def firstAnswer : List Item → Except ReadError Token
  | [] => .ok .endOfInput
  | item :: _ => item.answer

theorem eq_nil_of_firstAnswer {items : List Item} (ends : firstAnswer items = .ok .endOfInput) :
    items = [] := by
  cases items with
  | nil => rfl
  | cons item rest => exact absurd ends item.answer_ne_endOfInput

/-- The position of the first of items in a line that ends at position `stop`. -/
def firstPosition (stop : Nat) : List Item → Nat
  | [] => stop
  | item :: _ => item.position

namespace Cursor

/-- The cursor stands on the first of the items ahead in a line that ends at
position `stop`. -/
structure Faces (c : Cursor) (stop : Nat) (ahead : List Item) : Prop where
  current : c.current = firstAnswer ahead
  position : c.position = firstPosition stop ahead
  ahead : c.stream.ahead = ahead.tail
  stop : c.stream.stop = stop

/-- The cursor that is advanced by a number of tokens. -/
def skip : Nat → Cursor → Cursor
  | 0, c => c
  | n + 1, c => skip n c.advance.state

theorem skip_add (m n : Nat) (c : Cursor) : skip n (skip m c) = skip (m + n) c := by
  induction m generalizing c with
  | zero => rw [Nat.zero_add]; rfl
  | succ m induction =>
    rw [show m + 1 + n = (m + n) + 1 by omega]
    exact induction c.advance.state

theorem faces_ofStream (s : Token.Stream) : (ofStream s).Faces s.stop s.ahead := by
  cases same : s.ahead with
  | nil =>
    have scan := Token.Stream.next_of_ahead_eq_nil same
    have scanned : ofStream s = ⟨s.next.state, s.next.answer, s.next.state.position⟩ := rfl
    rw [scan] at scanned
    rw [scanned]
    exact ⟨rfl, rfl, rfl, rfl⟩
  | cons item rest =>
    obtain ⟨state, scan, ahead, stop, position, -⟩ := Token.Stream.next_of_ahead_eq_cons same
    have scanned : ofStream s = ⟨s.next.state, s.next.answer, s.next.state.position⟩ := rfl
    rw [scan] at scanned
    rw [scanned]
    exact ⟨rfl, position, ahead, stop⟩

theorem faces_ofLine (line : List Char) : (ofLine line).Faces (line.length + 1) (items line) := by
  have faces := faces_ofStream (.ofLine line)
  rwa [Token.Stream.stop_ofLine, Token.Stream.ahead_ofLine] at faces

variable {c : Cursor} {stop : Nat} {ahead : List Item}

theorem Faces.advance (faces : c.Faces stop ahead) : c.advance.state.Faces stop ahead.tail := by
  have next := faces_ofStream c.stream
  rwa [faces.stop, faces.ahead] at next

theorem Faces.skip (faces : c.Faces stop ahead) (n : Nat) :
    (c.skip n).Faces stop (ahead.drop n) := by
  induction n generalizing c ahead with
  | zero => exact faces
  | succ n induction =>
    have next := induction faces.advance
    rwa [← List.drop_one, List.drop_drop, Nat.add_comm 1 n] at next

/-! ## Taking an integer -/

theorem Faces.takeInteger_of_integer {n position : Nat} {rest : List Item}
    (faces : c.Faces stop (⟨.integer n, position⟩ :: rest)) :
    c.takeInteger = ⟨.ok n, c.advance.state, c.advance.events⟩ :=
  Cursor.takeInteger_of_integer faces.current

theorem Faces.takeInteger_of_not_startsWithInteger (faces : c.Faces stop ahead)
    (lacks : startsWithInteger ahead = false) :
    c.takeInteger = ⟨.error (missingInteger stop ahead), c, []⟩ := by
  have current := faces.current
  have position := faces.position
  cases ahead with
  | nil =>
    rw [takeInteger_of_kind_ne current (by decide), unexpected, position]
    rfl
  | cons item rest =>
    obtain ⟨lexeme, place⟩ := item
    cases lexeme with
    | integer n => cases lacks
    | operator op =>
      have other : (Token.operator op).kind ≠ .integer := Token.Kind.noConfusion
      rw [takeInteger_of_kind_ne current other, unexpected, position]
      rfl
    | invalid character => exact takeInteger_of_error current

/-! ## Folding -/

theorem Faces.fold_of_not_startsWithOperator (faces : c.Faces stop ahead)
    (ends : startsWithOperator ahead = false) (number : Number) :
    c.fold number.value number.real = ⟨.ok number, c, c.stopEvents⟩ := by
  refine fold_of_not_operator fun op current => ?_
  rw [faces.current] at current
  cases ahead with
  | nil => cases current
  | cons item rest =>
    obtain ⟨lexeme, place⟩ := item
    cases lexeme with
    | integer n => cases current
    | operator op => cases ends
    | invalid character => cases current

theorem Faces.fold_of_not_startsWithInteger {op : Operator} {position : Nat} {rest : List Item}
    (faces : c.Faces stop (⟨.operator op, position⟩ :: rest))
    (lacks : startsWithInteger rest = false) (number : Number) :
    c.fold number.value number.real =
      ⟨.error (.read (missingInteger stop rest)), c.skip 1, c.advance.events⟩ := by
  have operand := faces.advance.takeInteger_of_not_startsWithInteger lacks
  exact fold_of_missing faces.current (congrArg Step.answer operand)

-- The operator stays a variable: with `div` in its place the kernel would evaluate the division.
theorem Faces.fold_of_zeroDivisor {op : Operator} {n position operandPosition : Nat}
    {rest : List Item}
    (faces : c.Faces stop (⟨.operator op, position⟩ :: ⟨.integer n, operandPosition⟩ :: rest))
    (refused : op = .div ∧ (Binary64.ofNat n).isZero = true) (number : Number) :
    c.fold number.value number.real =
      ⟨.error (.arithmetic (.divisionByZero position)), c.skip 2,
        c.advance.events ++ (c.skip 1).advance.events⟩ := by
  have place : c.position = position := faces.position
  refine fold_of_refused faces.current faces.advance.current ?_
  rw [place, Operator.apply_eq, if_pos refused]

theorem Faces.fold_of_application {a : Application} {rest : List Item}
    (faces : c.Faces stop
      (⟨.operator a.op, a.position⟩ :: ⟨.integer a.operand, a.operandPosition⟩ :: rest))
    (defined : a.dividesByZero = false) (number : Number) :
    let result := number.extend a.op a.operand
    let later := (c.skip 2).fold result.value result.real
    c.fold number.value number.real =
      ⟨later.answer, later.state, c.advance.events ++ (c.skip 1).advance.events ++
        .folded a.op number.value (.ofNat a.operand) result.value :: later.events⟩ := by
  have applied := Application.dividesByZero_eq_false_iff.1 defined
  refine fold_of_folded faces.current faces.advance.current ?_
  rw [Operator.apply_eq, if_neg applied]
  rfl

theorem Faces.skip_applicationItems {applications : List Application} {rest : List Item}
    (faces : c.Faces stop (applicationItems applications ++ rest)) :
    (c.skip (2 * applications.length)).Faces stop rest := by
  have later := faces.skip (applicationItems applications).length
  rwa [List.drop_left, length_applicationItems] at later

/-- Folding goes over operators that are not refused. -/
theorem Faces.fold_applicationItems_append {applications : List Application} {rest : List Item}
    (faces : c.Faces stop (applicationItems applications ++ rest))
    (defined : ∀ a ∈ applications, a.dividesByZero = false) (number : Number) :
    let result := applyAll number applications
    let later := (c.skip (2 * applications.length)).fold result.value result.real
    (c.fold number.value number.real).answer = later.answer ∧
      (c.fold number.value number.real).state = later.state := by
  induction applications generalizing c number with
  | nil => exact ⟨rfl, rfl⟩
  | cons a applications induction =>
    obtain ⟨first, others⟩ := List.forall_mem_cons.1 defined
    have step := faces.fold_of_application first number
    have later := induction (faces.skip 2) others (number.extend a.op a.operand)
    rw [skip_add] at later
    rw [step, List.length_cons, show 2 * (applications.length + 1) =
      2 + 2 * applications.length by omega]
    exact later

theorem Faces.fold (faces : c.Faces stop ahead) {number : Number}
    {answer : Except LineError Number} {taken : Nat}
    (course : OperatorCourse stop number ahead answer taken) :
    (c.fold number.value number.real).answer = answer ∧
      (c.fold number.value number.real).state = c.skip taken := by
  cases course with
  | finished applications defined ends =>
    obtain ⟨answers, states⟩ := faces.fold_applicationItems_append defined number
    have last := faces.skip_applicationItems.fold_of_not_startsWithOperator ends
      (applyAll number applications)
    rw [answers, states, last]
    exact ⟨rfl, rfl⟩
  | missing applications defined lacks =>
    obtain ⟨answers, states⟩ := faces.fold_applicationItems_append defined number
    have last := faces.skip_applicationItems.fold_of_not_startsWithInteger lacks
      (applyAll number applications)
    rw [skip_add] at last
    rw [answers, states, last]
    exact ⟨rfl, rfl⟩
  | zeroDivisor applications defined zero =>
    obtain ⟨answers, states⟩ := faces.fold_applicationItems_append defined number
    have last := faces.skip_applicationItems.fold_of_zeroDivisor ⟨rfl, zero⟩
      (applyAll number applications)
    rw [skip_add] at last
    rw [answers, states, last]
    exact ⟨rfl, rfl⟩

theorem Faces.expression (faces : c.Faces stop ahead) {answer : Except LineError Number}
    {taken : Nat} (course : Course stop ahead answer taken) :
    c.expression.answer = answer ∧ c.expression.state = c.skip taken := by
  cases course with
  | noFirst lacks =>
    rw [Cursor.expression, faces.takeInteger_of_not_startsWithInteger lacks]
    exact ⟨rfl, rfl⟩
  | operators course =>
    have later := faces.advance.fold course
    dsimp only at later
    rw [Cursor.expression, faces.takeInteger_of_integer]
    exact later

end Cursor

/-! ## Lines -/

theorem evaluate_of_course {line : List Char} {answer : Except LineError Number} {taken : Nat}
    (course : Course (line.length + 1) (items line) answer taken) : evaluate line = answer :=
  ((Cursor.faces_ofLine line).expression course).1

/-- A line comes to what the walk over its items comes to. -/
theorem evaluate_eq_walk (line : List Char) :
    evaluate line = walk (line.length + 1) (items line) := by
  obtain ⟨answer, taken, course⟩ := exists_course (line.length + 1) (items line)
  rw [evaluate_of_course course, course.walk_eq]

/-! ## The expression of a line -/

/-- A line opens with an integer and operators with an integer each, after which the items
`rest` are left and no further operator comes. -/
structure OpensWith (line : List Char) (first : Nat) (applications : List Application)
    (rest : List Item) : Prop where
  items_eq : ∃ place,
    items line = ⟨.integer first, place⟩ :: (applicationItems applications ++ rest)
  ends : startsWithOperator rest = false

theorem applicationItems_append_inj {applications others : List Application}
    {rest left : List Item} (ends : startsWithOperator rest = false)
    (stops : startsWithOperator left = false)
    (same : applicationItems applications ++ rest = applicationItems others ++ left) :
    applications = others ∧ rest = left := by
  induction applications generalizing others with
  | nil =>
    cases others with
    | nil => exact ⟨rfl, same⟩
    | cons b others =>
      rw [show rest = _ from same] at ends
      cases ends
  | cons a applications induction =>
    cases others with
    | nil =>
      rw [show left = _ from same.symm] at stops
      cases stops
    | cons b others =>
      obtain ⟨operators, operands, later⟩ : _ ∧ _ ∧
          applicationItems applications ++ rest = applicationItems others ++ left := by
        simpa only [applicationItems, List.cons_append, List.cons.injEq] using same
      obtain ⟨rfl, rfl⟩ := induction later
      obtain ⟨op, position, operand, operandPosition⟩ := a
      cases operators
      cases operands
      exact ⟨rfl, rfl⟩

/-- A line opens in one way only. -/
theorem OpensWith.unique {line : List Char} {first other : Nat}
    {applications others : List Application} {rest left : List Item}
    (opens : OpensWith line first applications rest) (again : OpensWith line other others left) :
    first = other ∧ applications = others ∧ rest = left := by
  obtain ⟨place, all⟩ := opens.items_eq
  obtain ⟨place', all'⟩ := again.items_eq
  obtain ⟨item, later⟩ := List.cons.inj (all.symm.trans all')
  cases item
  exact ⟨rfl, applicationItems_append_inj opens.ends again.ends later⟩

/-- A line whose operators are not refused comes to what they make of its first integer. -/
theorem OpensWith.evaluate_eq {line : List Char} {first : Nat} {applications : List Application}
    {rest : List Item} (opens : OpensWith line first applications rest)
    (defined : ∀ a ∈ applications, a.dividesByZero = false) :
    evaluate line = .ok (applyAll ⟨.ofNat first, false⟩ applications) := by
  obtain ⟨place, all⟩ := opens.items_eq
  have course : Course (line.length + 1)
      (⟨.integer first, place⟩ :: (applicationItems applications ++ rest)) _ _ :=
    .operators (.finished applications defined opens.ends)
  rw [← all] at course
  exact evaluate_of_course course

/-- There is no other way to come to a number. -/
theorem exists_opensWith {line : List Char} {number : Number}
    (evaluated : evaluate line = .ok number) :
    ∃ first applications rest, OpensWith line first applications rest ∧
      (∀ a ∈ applications, a.dividesByZero = false) ∧
      number = applyAll ⟨.ofNat first, false⟩ applications ∧
      (Cursor.ofLine line).expression.state.current = firstAnswer rest := by
  have faces := Cursor.faces_ofLine line
  obtain ⟨answer, taken, course⟩ := exists_course (line.length + 1) (items line)
  obtain rfl : answer = .ok number := (evaluate_of_course course).symm.trans evaluated
  have stopped := (faces.skip taken).current
  rw [← (faces.expression course).2] at stopped
  generalize same : items line = all at course stopped
  cases course with
  | @operators first place _ _ _ course =>
    cases course with
    | @finished applications rest defined ends =>
      have passed : (applicationItems applications).length = 2 * applications.length :=
        length_applicationItems applications
      rw [List.drop_succ_cons, ← passed, List.drop_left] at stopped
      exact ⟨first, applications, rest, ⟨⟨place, same⟩, ends⟩, defined, rfl, stopped⟩

end LineCalc
