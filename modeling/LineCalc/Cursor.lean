import LineCalc.Binary64.Whole
import LineCalc.Token.Stream

/-!
# Cursors

A cursor stands on one token of a line: it has scanned that token and nothing
after it.  A fault in scanning is held back until a step needs the token, and
since a step that fails moves nothing, a cursor never passes a fault.

A cursor answers three questions: is this token of a given kind
(`Cursor.take`), is it an integer (`Cursor.takeInteger`), and what does the
expression that starts here come to (`Cursor.expression`).  The first two either
take the token and move by one, or fail and move nothing
(`Cursor.taken_or_refused`, `Cursor.integer_taken_or_refused`).
-/

namespace LineCalc

/-- A place in a line, with the token there. -/
structure Cursor where
  /-- The line after the current token. -/
  stream : Token.Stream
  /-- The current token, or the fault in scanning it. -/
  current : Except ReadError Token
  /-- The position of the current token. -/
  position : Nat

namespace Cursor

/-- A cursor on the next token of a stream. -/
def ofStream (s : Token.Stream) : Cursor :=
  let scan := s.next
  ⟨scan.state, scan.answer, scan.state.position⟩

/-- A cursor on the first token of a line. -/
def ofLine (line : List Char) : Cursor := ofStream (.ofLine line)

/-! ## Taking tokens -/

/-- Moves to the next token; the answer is the token that was current. -/
def advance (c : Cursor) : Step Cursor (Except ReadError Token) :=
  let scan := c.stream.next
  ⟨c.current, ⟨scan.state, scan.answer, scan.state.position⟩, scan.events⟩

/-- Moving hands out the token that was current, whatever it scans. -/
theorem advance_answer (c : Cursor) : c.advance.answer = c.current := rfl

/-- The fault of finding `found` where a token of kind `expected` has to
stand. -/
def unexpected (c : Cursor) (expected found : Token.Kind) : ReadError :=
  .unexpectedToken expected found c.position

/-- Takes the current token if it is of a kind. -/
def take (c : Cursor) (expected : Token.Kind) : Step Cursor (Except ReadError Token) :=
  match c.current with
  | .error error => ⟨.error error, c, []⟩
  | .ok token =>
    if token.kind = expected then c.advance
    else ⟨.error (c.unexpected expected token.kind), c, []⟩

/-- Takes the current token if it is an integer, and answers its value. -/
def takeInteger (c : Cursor) : Step Cursor (Except ReadError Nat) :=
  match c.current with
  | .error error => ⟨.error error, c, []⟩
  | .ok (.integer n) =>
    let moved := c.advance
    match moved.answer with
    | .error error => ⟨.error error, moved.state, moved.events⟩
    | .ok _ => ⟨.ok n, moved.state, moved.events⟩
  | .ok token => ⟨.error (c.unexpected .integer token.kind), c, []⟩

/-! ### What a take comes to -/

section

variable {c : Cursor} {error : ReadError} {token : Token} {kind : Token.Kind} {n : Nat}

theorem take_of_error (held : c.current = .error error) : c.take kind = ⟨.error error, c, []⟩ := by
  rw [take, held]

theorem take_of_kind_eq (current : c.current = .ok token) (same : token.kind = kind) :
    c.take kind = ⟨.ok token, c.advance.state, c.advance.events⟩ := by
  have moved : c.advance.answer = .ok token := c.advance_answer.trans current
  have taken : c.take kind = c.advance := by
    rw [take, current]
    exact if_pos same
  rw [taken, ← moved]

theorem take_of_kind_ne (current : c.current = .ok token) (other : token.kind ≠ kind) :
    c.take kind = ⟨.error (c.unexpected kind token.kind), c, []⟩ := by
  rw [take, current]
  exact if_neg other

/-- The current token is taken if it is of the kind, and otherwise nothing moves. -/
theorem taken_or_refused (c : Cursor) (kind : Token.Kind) :
    (∃ token, c.current = .ok token ∧ token.kind = kind ∧
      c.take kind = ⟨.ok token, c.advance.state, c.advance.events⟩) ∨
    ∃ error, c.take kind = ⟨.error error, c, []⟩ := by
  cases current : c.current with
  | error error => exact .inr ⟨error, take_of_error current⟩
  | ok token =>
    by_cases same : token.kind = kind
    · exact .inl ⟨token, rfl, same, take_of_kind_eq current same⟩
    · exact .inr ⟨_, take_of_kind_ne current same⟩

theorem take_of_ok (taken : (c.take kind).answer = .ok token) :
    c.take kind = ⟨.ok token, c.advance.state, c.advance.events⟩ := by
  obtain ⟨found, -, -, step⟩ | ⟨error, step⟩ := c.taken_or_refused kind
  · rw [step] at taken
    cases taken
    exact step
  · rw [step] at taken
    cases taken

theorem take_of_failed (failed : (c.take kind).answer = .error error) :
    c.take kind = ⟨.error error, c, []⟩ := by
  obtain ⟨found, -, -, step⟩ | ⟨held, step⟩ := c.taken_or_refused kind
  · rw [step] at failed
    cases failed
  · rw [step] at failed
    cases failed
    exact step

theorem takeInteger_of_error (held : c.current = .error error) :
    c.takeInteger = ⟨.error error, c, []⟩ := by
  rw [takeInteger, held]

/-- Moving past an integer does not fail, even if a fault is scanned after it. -/
theorem takeInteger_of_integer (current : c.current = .ok (.integer n)) :
    c.takeInteger = ⟨.ok n, c.advance.state, c.advance.events⟩ := by
  have moved : c.advance.answer = .ok (.integer n) := c.advance_answer.trans current
  rw [takeInteger, current]
  dsimp only
  rw [moved]

theorem takeInteger_of_kind_ne (current : c.current = .ok token) (other : token.kind ≠ .integer) :
    c.takeInteger = ⟨.error (c.unexpected .integer token.kind), c, []⟩ := by
  cases token with
  | integer n => exact absurd rfl other
  | operator op => rw [takeInteger, current]
  | endOfInput => rw [takeInteger, current]

/-- Both questions for an integer take the one that the cursor is on and move by one token, or
both fail with the same fault and move nothing. -/
theorem integer_taken_or_refused (c : Cursor) :
    (∃ n, c.current = .ok (.integer n) ∧
      c.take .integer = ⟨.ok (.integer n), c.advance.state, c.advance.events⟩ ∧
      c.takeInteger = ⟨.ok n, c.advance.state, c.advance.events⟩) ∨
    ∃ error, (∀ n, c.current ≠ .ok (.integer n)) ∧
      c.take .integer = ⟨.error error, c, []⟩ ∧ c.takeInteger = ⟨.error error, c, []⟩ := by
  cases current : c.current with
  | error error =>
    refine .inr ⟨error, ?_, take_of_error current, takeInteger_of_error current⟩
    intro n same
    cases same
  | ok token =>
    by_cases kind : token.kind = .integer
    · obtain ⟨n, rfl⟩ := Token.exists_integer_of_kind_eq kind
      exact .inl ⟨n, rfl, take_of_kind_eq current kind, takeInteger_of_integer current⟩
    · refine .inr ⟨_, ?_, take_of_kind_ne current kind, takeInteger_of_kind_ne current kind⟩
      intro n same
      cases same
      exact kind rfl

theorem takeInteger_of_failed (failed : c.takeInteger.answer = .error error) :
    c.takeInteger = ⟨.error error, c, []⟩ := by
  obtain ⟨n, -, -, step⟩ | ⟨held, -, -, step⟩ := c.integer_taken_or_refused
  · rw [step] at failed
    cases failed
  · rw [step] at failed
    cases failed
    exact step

/-- Only an integer is taken as one. -/
theorem current_of_takeInteger (taken : c.takeInteger.answer = .ok n) :
    c.current = .ok (.integer n) := by
  obtain ⟨m, current, -, step⟩ | ⟨error, -, -, step⟩ := c.integer_taken_or_refused
  · rw [step] at taken
    cases taken
    exact current
  · rw [step] at taken
    cases taken

end

/-- Taking an integer never gives characters back. -/
theorem length_rest_takeInteger_le (c : Cursor) :
    c.takeInteger.state.stream.rest.length ≤ c.stream.rest.length := by
  obtain ⟨n, -, -, step⟩ | ⟨error, -, -, step⟩ := c.integer_taken_or_refused
  · rw [step]
    exact Token.Stream.length_rest_next_le c.stream
  · have stays : c.takeInteger.state = c := congrArg Step.state step
    exact Nat.le_of_eq (by rw [stays])

/-- A token with an integer after it takes characters of the line. -/
theorem length_rest_takeInteger_take_lt {c : Cursor} {kind : Token.Kind} {token : Token} {n : Nat}
    (taken : (c.take kind).answer = .ok token)
    (operand : (c.take kind).state.takeInteger.answer = .ok n) :
    (c.take kind).state.takeInteger.state.stream.rest.length < c.stream.rest.length := by
  have step := take_of_ok taken
  rw [step] at operand ⊢
  have next : c.stream.next.answer = .ok (.integer n) := current_of_takeInteger operand
  have more : c.stream.next.state.rest.length < c.stream.rest.length :=
    Token.Stream.length_rest_next_lt (by simp [next])
  exact Nat.lt_of_le_of_lt (length_rest_takeInteger_le _) more

/-! ## Folding -/

/-- The end of a fold: what it stopped at is logged unless it is the end of the
line, and nothing is taken. -/
def stopEvents (c : Cursor) : List Event :=
  match c.current with
  | .ok .endOfInput => []
  | .ok token => [.trailingToken c.position token]
  | .error error => [.trailingFault error]

/-- Applies operators to an accumulator as long as the current token is one, each
as soon as its right operand is taken.  `real` says whether a division went
before. -/
def fold (c : Cursor) (accumulator : Binary64) (real : Bool) :
    Step Cursor (Except LineError Number) :=
  match c.current with
  | .ok (.operator op) =>
    let moved := c.take (.operator op)
    match _ : moved.answer with
    | .error error => ⟨.error (.read error), moved.state, moved.events⟩
    | .ok _ =>
      let operand := moved.state.takeInteger
      let scans := moved.events ++ operand.events
      match _ : operand.answer with
      | .error error => ⟨.error (.read error), operand.state, scans⟩
      | .ok n =>
        let right := Binary64.ofNat n
        -- The token after the operand is scanned by now; the fault is the operator's all the same.
        match op.apply accumulator right c.position with
        | .error error => ⟨.error (.arithmetic error), operand.state, scans⟩
        | .ok result =>
          let later := operand.state.fold result (real || op = .div)
          ⟨later.answer, later.state,
            scans ++ .folded op accumulator right result :: later.events⟩
  | _ => ⟨.ok ⟨accumulator, real⟩, c, c.stopEvents⟩
termination_by c.stream.rest.length
decreasing_by exact length_rest_takeInteger_take_lt ‹_› ‹_›

/-! ### What a fold comes to -/

section

variable {c : Cursor} {accumulator : Binary64} {real : Bool} {op : Operator}

theorem fold_of_not_operator (ends : ∀ op, c.current ≠ .ok (.operator op)) :
    c.fold accumulator real = ⟨.ok ⟨accumulator, real⟩, c, c.stopEvents⟩ := by
  rw [fold]
  split
  next op current => exact absurd current (ends op)
  next => rfl

/-- The operator itself is always taken. -/
theorem fold_of_operator (current : c.current = .ok (.operator op)) :
    c.fold accumulator real =
      let operand := c.advance.state.takeInteger
      let scans := c.advance.events ++ operand.events
      match operand.answer with
      | .error error => ⟨.error (.read error), operand.state, scans⟩
      | .ok n =>
        match op.apply accumulator (.ofNat n) c.position with
        | .error error => ⟨.error (.arithmetic error), operand.state, scans⟩
        | .ok result =>
          let later := operand.state.fold result (real || op = .div)
          ⟨later.answer, later.state,
            scans ++ .folded op accumulator (.ofNat n) result :: later.events⟩ := by
  have moved : c.take (.operator op) = _ := take_of_kind_eq current rfl
  conv => lhs; rw [fold, current]
  dsimp only
  split
  next error failed =>
    rw [moved] at failed
    cases failed
  next token taken =>
    rw [moved]
    dsimp only
    split
    next error failed => rw [failed]
    next n taken => rw [taken]

theorem fold_of_missing {error : ReadError} (current : c.current = .ok (.operator op))
    (missing : c.advance.state.takeInteger.answer = .error error) :
    c.fold accumulator real = ⟨.error (.read error), c.advance.state, c.advance.events⟩ := by
  rw [fold_of_operator current, takeInteger_of_failed missing]
  dsimp only
  rw [List.append_nil]

theorem fold_of_refused {n : Nat} {error : ArithmeticError}
    (current : c.current = .ok (.operator op))
    (operand : c.advance.state.current = .ok (.integer n))
    (refused : op.apply accumulator (.ofNat n) c.position = .error error) :
    c.fold accumulator real = ⟨.error (.arithmetic error), c.advance.state.advance.state,
      c.advance.events ++ c.advance.state.advance.events⟩ := by
  rw [fold_of_operator current, takeInteger_of_integer operand]
  dsimp only
  rw [refused]

theorem fold_of_folded {n : Nat} {result : Binary64} (current : c.current = .ok (.operator op))
    (operand : c.advance.state.current = .ok (.integer n))
    (applied : op.apply accumulator (.ofNat n) c.position = .ok result) :
    let later := c.advance.state.advance.state.fold result (real || op = .div)
    c.fold accumulator real = ⟨later.answer, later.state,
      c.advance.events ++ c.advance.state.advance.events ++
        .folded op accumulator (.ofNat n) result :: later.events⟩ := by
  rw [fold_of_operator current, takeInteger_of_integer operand]
  dsimp only
  rw [applied]

end

/-- Evaluates the expression from the current token on, an integer and then
operators each with an integer.  It ends before the first token in the place of
an operator that is none, or before a fault there. -/
def expression (c : Cursor) : Step Cursor (Except LineError Number) :=
  let first := c.takeInteger
  match first.answer with
  | .error error => ⟨.error (.read error), first.state, first.events⟩
  | .ok n =>
    let later := first.state.fold (.ofNat n) false
    ⟨later.answer, later.state, first.events ++ later.events⟩

end Cursor

end LineCalc
