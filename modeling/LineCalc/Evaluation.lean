import LineCalc.Cursor

/-!
# Lines

The two things to do with a line: to evaluate it strictly from left to right,
and to list its tokens.  Nothing carries over from one line to the next.  Each
has a form that also answers the events on the way.
-/

namespace LineCalc

/-- The event that closes an evaluation. -/
def closingEvent (line : List Char) : Except LineError Number → Event
  | .ok number => .evaluated line number
  | .error error => .failed line error

/-- Evaluates a line and logs the events.  What follows the expression is
ignored. -/
def evaluateLogged (line : List Char) : Logged (Except LineError Number) :=
  let outcome := (Cursor.ofLine line).expression
  ⟨outcome.answer,
    (Token.Stream.ofLine line).next.events ++ outcome.events ++ [closingEvent line outcome.answer]⟩

/-- The result of a line, or the first fault. -/
def evaluate (line : List Char) : Except LineError Number := (evaluateLogged line).answer

/-- Lists the tokens of a line and logs the events. -/
def tokenizeLogged (line : List Char) : Logged (Except LineError (List Token)) :=
  let tokens := (Token.Stream.ofLine line).drain
  ⟨tokens.answer.mapError .read, tokens.events⟩

/-- The tokens of a line with the end of the line last, or the first character
that starts none. -/
def tokenize (line : List Char) : Except LineError (List Token) := (tokenizeLogged line).answer

end LineCalc
