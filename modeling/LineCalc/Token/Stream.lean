import LineCalc.Event
import LineCalc.Lexeme

/-!
# Token streams

A stream holds what is left of a line and gives one token at a time.  A
character that starts no token is answered with a fault, and the stream goes on
after it.  Once nothing but blanks is left the stream answers the end of the
line, for ever, and logs it the first time only.

The stream counts characters as it goes, so a position is one more than the
number of characters before the token; the end of the line is one past the last
character.  Counting comes to the same as looking up the first byte of the token
in the line (`HasTaken.next_cases`).
-/

namespace LineCalc

namespace Lexeme

/-- The token that a lexeme at a position is. -/
def toToken (position : Nat) : Lexeme → Except ReadError Token
  | integer n => .ok (.integer n)
  | operator op => .ok (.operator op)
  | invalid c => .error (.invalidCharacter c position)

end Lexeme

namespace Token

/-- A line in the course of being scanned. -/
structure Stream where
  /-- The characters not scanned yet. -/
  rest : List Char
  /-- The number of characters scanned. -/
  consumed : Nat
  /-- The position of the last scanned token, 0 before the first. -/
  position : Nat
  /-- Whether the end of the line was scanned. -/
  ended : Bool
  deriving DecidableEq

namespace Stream

/-- A line of which nothing is scanned. -/
def ofLine (line : List Char) : Stream := ⟨line, 0, 0, false⟩

/-- The event of a scanned token; a fault has none. -/
def scanEvents (position : Nat) : Except ReadError Token → List Event
  | .ok token => [.scanned position token]
  | .error _ => []

def next (s : Stream) : Step Stream (Except ReadError Token) :=
  match Lexeme.cut? s.rest with
  | none =>
    -- Trailing blanks count as scanned, so a second scan finds the same end.
    let total := s.consumed + s.rest.length
    ⟨.ok .endOfInput, ⟨[], total, total + 1, true⟩,
      if s.ended then [] else [.endOfInput (total + 1)]⟩
  | some cut =>
    let start := s.consumed + cut.blanks.length
    let answer := cut.lexeme.toToken (start + 1)
    ⟨answer, ⟨cut.rest, start + cut.text.length, start + 1, s.ended⟩,
      scanEvents (start + 1) answer⟩

/-- A scan never gives characters back. -/
theorem length_rest_next_le (s : Stream) : s.next.state.rest.length ≤ s.rest.length := by
  unfold next
  split
  next => simp
  next cut found => exact Nat.le_of_lt (Lexeme.length_rest_lt found)

/-- A scan that is not at the end of the line takes characters. -/
theorem length_rest_next_lt {s : Stream} (more : s.next.answer ≠ .ok .endOfInput) :
    s.next.state.rest.length < s.rest.length := by
  revert more
  unfold next
  split
  next => intro more; exact absurd rfl more
  next cut found => intro _; exact Lexeme.length_rest_lt found

/-! ## Places of scans -/

/-- The stream has taken the part `front` off a line, and the rest is to be scanned. -/
structure HasTaken (line front : List Char) (s : Stream) : Prop where
  line_eq : front ++ s.rest = line
  consumed_eq : s.consumed = front.length

variable {line front : List Char} {s : Stream}

theorem hasTaken_ofLine (line : List Char) : (ofLine line).HasTaken line [] := ⟨rfl, rfl⟩

/-- A scan counts its way to the character of the line that holds the first byte of the
lexeme, and without a lexeme past the last character. -/
theorem HasTaken.next_cases (taken : s.HasTaken line front) :
    (∃ cut, Lexeme.cut? s.rest = some cut ∧
      s.next.state.position = charPosition line (utf8Length front + utf8Length cut.blanks) ∧
      s.next.state.HasTaken line (front ++ cut.blanks ++ cut.text)) ∨
    (Lexeme.cut? s.rest = none ∧ s.next.state.position = line.length + 1 ∧
      s.next.state.HasTaken line line) := by
  cases found : Lexeme.cut? s.rest with
  | none =>
    have total : s.consumed + s.rest.length = line.length := by
      rw [taken.consumed_eq, ← List.length_append, taken.line_eq]
    rw [next, found]
    exact .inr ⟨rfl, congrArg (· + 1) total, List.append_nil line, total⟩
  | some cut =>
    have whole : (front ++ cut.blanks) ++ (cut.text ++ cut.rest) = line := by
      rw [List.append_assoc, Lexeme.append_of_cut? found, taken.line_eq]
    have place : charPosition line (utf8Length front + utf8Length cut.blanks) =
        s.consumed + cut.blanks.length + 1 := by
      rw [← utf8Length_append, ← whole, charPosition_utf8Length, List.length_append,
        taken.consumed_eq]
    have moved : s.next.state.HasTaken line (front ++ cut.blanks ++ cut.text) := by
      rw [next, found]
      constructor
      · rw [List.append_assoc, whole]
      · simp only [List.length_append, taken.consumed_eq]
    refine .inl ⟨cut, rfl, ?_, moved⟩
    rw [place, next, found]

/-! ## All tokens -/

/-- All tokens up to the end of the line, or the first fault. -/
def drain (s : Stream) : Logged (Except ReadError (List Token)) :=
  let scan := s.next
  match _ : scan.answer with
  | .error error => ⟨.error error, scan.events⟩
  | .ok token =>
    if token = .endOfInput then
      ⟨.ok [token], scan.events⟩
    else
      let later := scan.state.drain
      ⟨later.answer.map (token :: ·), scan.events ++ later.events⟩
termination_by s.rest.length
decreasing_by
  apply length_rest_next_lt
  simp_all [scan]

end Stream

end Token

end LineCalc
