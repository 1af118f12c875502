import LineCalc.Fault
import LineCalc.Number

/-!
# The event log

Reading and folding a line leave a trail of events.  A step of a reader is a
record of the answer, the state after it and the events that it logged, so the
order of events is the order in which steps are put together, and a failed scan
is seen by what is missing.

An event is logged as an entry: its level, what it says, and its data by name
(`Event.entry`).
-/

namespace LineCalc

/-- Something that happened on the way to an answer. -/
inductive Event where
  /-- A token other than the end of the line was scanned. -/
  | scanned (position : Nat) (token : Token)
  /-- The end of the line was scanned for the first time. -/
  | endOfInput (position : Nat)
  | folded (op : Operator) (left right result : Binary64)
  /-- The fold stopped at a token that is no operator. -/
  | trailingToken (position : Nat) (token : Token)
  /-- The fold stopped at a character that starts no token. -/
  | trailingFault (error : ReadError)
  | evaluated (line : List Char) (number : Number)
  | failed (line : List Char) (error : LineError)
  deriving DecidableEq

/-- How much detail an event belongs to. -/
inductive Level where
  | trace
  | debug
  deriving DecidableEq

namespace Event

def level : Event → Level
  | scanned _ _ | endOfInput _ => .trace
  | _ => .debug

/-- What an event says, apart from its fields. -/
def message : Event → String
  | scanned _ _ => "scanned"
  | endOfInput _ => "end of input"
  | folded _ _ _ _ => "fold"
  | trailingToken _ _ | trailingFault _ => "ignoring trailing input"
  | evaluated _ _ => "evaluated"
  | failed _ _ => "evaluation failed"

end Event

/-- A piece of data in the log. -/
inductive Datum where
  | count (n : Nat)
  | number (x : Binary64)
  | text (text : String)
  deriving DecidableEq

/-- An event as it is logged. -/
structure Entry where
  level : Level
  message : String
  data : List (String × Datum)
  deriving DecidableEq

namespace Event

/-- What an event is about, by name.  Tokens and results are shown as they are
displayed, faults by their message. -/
def data : Event → List (String × Datum)
  | scanned position token | trailingToken position token =>
    [("position", .count position), ("token", .text token.display)]
  | endOfInput position => [("position", .count position)]
  | folded op left right result =>
    [("left", .number left), ("op", .text (String.singleton op.symbol)),
      ("right", .number right), ("result", .number result)]
  | trailingFault error => [("error", .text error.message)]
  | evaluated line number =>
    [("source", .text (String.ofList line)), ("number", .text number.display)]
  | failed line error => [("source", .text (String.ofList line)), ("error", .text error.message)]

def entry (event : Event) : Entry := ⟨event.level, event.message, event.data⟩

end Event

/-- An answer and the events on the way to it. -/
structure Logged (α : Type) where
  answer : α
  /-- The events, oldest first. -/
  events : List Event

/-- One step of a reader. -/
structure Step (σ α : Type) where
  /-- The answer of the step. -/
  answer : α
  /-- The reader after the step. -/
  state : σ
  /-- The events of the step, oldest first. -/
  events : List Event

end LineCalc
