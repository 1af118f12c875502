import LineCalc.Proofs.Evaluation

/-!
# The log of a line

The events of an evaluation are read off the items of the line, like its result: `walkLog`
goes the way of `walk` and lists the scan of each item in the order in which the cursor comes
to it, and an operator that is applied after the scan of what follows its operand.  With the
closing event this is the whole log of an evaluation (`evaluateLogged_events`).

The end of the line is logged when it is scanned for the first time.  A cursor *meets* items
if it faces them and no scan before found the end of the line, unless it stands there
(`Cursor.Meets`), so what a scan logs can be told from the items as well.
-/

namespace LineCalc

/-- The events of one level of detail. -/
def eventsAt (level : Level) (events : List Event) : List Event :=
  events.filter fun event => event.level = level

@[simp] theorem eventsAt_append (level : Level) (front back : List Event) :
    eventsAt level (front ++ back) = eventsAt level front ++ eventsAt level back :=
  List.filter_append front back

theorem eventsAt_of_level {level : Level} {events : List Event}
    (same : ∀ event ∈ events, event.level = level) : eventsAt level events = events :=
  List.filter_eq_self.2 fun event membership => decide_eq_true (same event membership)

theorem eventsAt_of_ne {level other : Level} {events : List Event} (distinct : other ≠ level)
    (same : ∀ event ∈ events, event.level = other) : eventsAt level events = [] := by
  refine List.filter_eq_nil_iff.2 fun event membership => ?_
  rw [same event membership, decide_eq_true_eq]
  exact distinct

/-! ## Kinds of events -/

def Event.isFold : Event → Bool
  | .folded _ _ _ _ => true
  | _ => false

def Event.isEndOfInput : Event → Bool
  | .endOfInput _ => true
  | _ => false

/-! ## The log of a walk -/

/-- What the scan of the first of items logs in a line that ends at position `stop`. -/
def scanLog (stop : Nat) : List Item → List Event
  | [] => [.endOfInput stop]
  | ⟨.integer n, position⟩ :: _ => [.scanned position (.integer n)]
  | ⟨.operator op, position⟩ :: _ => [.scanned position (.operator op)]
  | ⟨.invalid _, _⟩ :: _ => []

theorem scanLog_cons (stop : Nat) (item : Item) (rest : List Item) :
    scanLog stop (item :: rest) = Token.Stream.scanEvents item.position item.answer := by
  obtain ⟨lexeme, position⟩ := item
  cases lexeme <;> rfl

theorem level_of_mem_scanLog {stop : Nat} {items : List Item} {event : Event}
    (membership : event ∈ scanLog stop items) : event.level = .trace := by
  cases items with
  | nil =>
    obtain rfl := List.mem_singleton.1 membership
    rfl
  | cons item rest =>
    obtain ⟨lexeme, position⟩ := item
    cases lexeme with
    | integer n =>
      obtain rfl := List.mem_singleton.1 membership
      rfl
    | operator op =>
      obtain rfl := List.mem_singleton.1 membership
      rfl
    | invalid c => cases membership

/-- What is logged of the items that an expression ends before. -/
def trailingLog : List Item → List Event
  | [] => []
  | item :: _ =>
    match item.answer with
    | .ok token => [.trailingToken item.position token]
    | .error error => [.trailingFault error]

/-- What is logged of an integer that is taken: its own scan and the scan of what follows. -/
def integerLog (stop place n : Nat) (rest : List Item) : List Event :=
  .scanned place (.integer n) :: scanLog stop rest

theorem level_of_mem_integerLog {stop place n : Nat} {rest : List Item} {event : Event}
    (membership : event ∈ integerLog stop place n rest) : event.level = .trace := by
  rcases List.mem_cons.1 membership with rfl | later
  · rfl
  · exact level_of_mem_scanLog later

/-- The log of a walk from the place of an operator on, with the result so far.  The operator
itself has been scanned. -/
def logOperators (stop : Nat) : Number → List Item → List Event
  | number, ⟨.operator op, _⟩ :: ⟨.integer n, place⟩ :: rest =>
    if op = .div ∧ (Binary64.ofNat n).isZero = true then
      integerLog stop place n rest
    else
      integerLog stop place n rest ++
        .folded op number.value (.ofNat n) (number.extend op n).value ::
          logOperators stop (number.extend op n) rest
  | _, ⟨.operator _, _⟩ :: rest => scanLog stop rest
  | _, ahead => trailingLog ahead

/-- The log of a walk over the items of a line that ends at position `stop`. -/
def walkLog (stop : Nat) : List Item → List Event
  | ⟨.integer n, place⟩ :: rest =>
    integerLog stop place n rest ++ logOperators stop ⟨.ofNat n, false⟩ rest
  | items => scanLog stop items

theorem not_isFold_of_trace {event : Event} (trace : event.level = .trace) :
    event.isFold = false := by
  cases event with
  | folded op left right result => cases trace
  | _ => rfl

theorem level_isFold_of_mem_trailingLog {items : List Item} {event : Event}
    (membership : event ∈ trailingLog items) : event.level = .debug ∧ event.isFold = false := by
  cases items with
  | nil => cases membership
  | cons item rest =>
    rw [trailingLog] at membership
    cases found : item.answer with
    | error error =>
      rw [found] at membership
      obtain rfl := List.mem_singleton.1 membership
      exact ⟨rfl, rfl⟩
    | ok token =>
      rw [found] at membership
      obtain rfl := List.mem_singleton.1 membership
      exact ⟨rfl, rfl⟩

@[simp] theorem eventsAt_trace_scanLog (stop : Nat) (items : List Item) :
    eventsAt .trace (scanLog stop items) = scanLog stop items :=
  eventsAt_of_level fun _ => level_of_mem_scanLog

@[simp] theorem eventsAt_debug_scanLog (stop : Nat) (items : List Item) :
    eventsAt .debug (scanLog stop items) = [] :=
  eventsAt_of_ne (by decide) fun _ => level_of_mem_scanLog

@[simp] theorem eventsAt_trace_integerLog (stop place n : Nat) (rest : List Item) :
    eventsAt .trace (integerLog stop place n rest) = integerLog stop place n rest :=
  eventsAt_of_level fun _ => level_of_mem_integerLog

@[simp] theorem eventsAt_debug_integerLog (stop place n : Nat) (rest : List Item) :
    eventsAt .debug (integerLog stop place n rest) = [] :=
  eventsAt_of_ne (by decide) fun _ => level_of_mem_integerLog

@[simp] theorem eventsAt_trace_trailingLog (items : List Item) :
    eventsAt .trace (trailingLog items) = [] :=
  eventsAt_of_ne (by decide) fun _ membership => (level_isFold_of_mem_trailingLog membership).1

@[simp] theorem eventsAt_debug_trailingLog (items : List Item) :
    eventsAt .debug (trailingLog items) = trailingLog items :=
  eventsAt_of_level fun _ membership => (level_isFold_of_mem_trailingLog membership).1

theorem logOperators_of_not_startsWithInteger {rest : List Item}
    (lacks : startsWithInteger rest = false) (stop : Nat) (number : Number) (op : Operator)
    (position : Nat) :
    logOperators stop number (⟨.operator op, position⟩ :: rest) = scanLog stop rest := by
  cases rest with
  | nil => rfl
  | cons item rest =>
    obtain ⟨lexeme, place⟩ := item
    cases lexeme with
    | integer n => cases lacks
    | operator op => rfl
    | invalid c => rfl

theorem logOperators_of_not_startsWithOperator {ahead : List Item}
    (ends : startsWithOperator ahead = false) (stop : Nat) (number : Number) :
    logOperators stop number ahead = trailingLog ahead := by
  cases ahead with
  | nil => rfl
  | cons item rest =>
    obtain ⟨lexeme, position⟩ := item
    cases lexeme with
    | integer n => rfl
    | operator op => cases ends
    | invalid c => rfl

theorem walkLog_of_not_startsWithInteger {items : List Item}
    (lacks : startsWithInteger items = false) (stop : Nat) :
    walkLog stop items = scanLog stop items := by
  cases items with
  | nil => rfl
  | cons item rest =>
    obtain ⟨lexeme, position⟩ := item
    cases lexeme with
    | integer n => cases lacks
    | operator op => rfl
    | invalid c => rfl

/-! ## Cursors that meet items -/

namespace Cursor

/-- The cursor faces items, and the end of the line is scanned just if there are none. -/
structure Meets (c : Cursor) (stop : Nat) (ahead : List Item) : Prop where
  faces : c.Faces stop ahead
  ended : c.stream.ended = ahead.isEmpty

/-- The scan of a stream that has not come to the end of its line. -/
theorem meets_ofStream {s : Token.Stream} (fresh : s.ended = false) :
    (ofStream s).Meets s.stop s.ahead ∧ s.next.events = scanLog s.stop s.ahead := by
  have faces := faces_ofStream s
  cases same : s.ahead with
  | nil =>
    have scan := Token.Stream.next_of_ahead_eq_nil same
    rw [same] at faces
    refine ⟨⟨faces, ?_⟩, ?_⟩
    · rw [ofStream, scan]
      rfl
    · rw [scan, fresh]
      rfl
  | cons item rest =>
    obtain ⟨state, scan, -, -, -, ended⟩ := Token.Stream.next_of_ahead_eq_cons same
    rw [same] at faces
    refine ⟨⟨faces, ?_⟩, ?_⟩
    · rw [ofStream, scan]
      exact ended.trans fresh
    · rw [scan, scanLog_cons]

variable {c : Cursor} {stop : Nat} {item : Item} {rest ahead : List Item}

/-- Advancing logs the scan of the next item. -/
theorem Meets.advance (meets : c.Meets stop (item :: rest)) :
    c.advance.state.Meets stop rest ∧ c.advance.events = scanLog stop rest := by
  have next := meets_ofStream meets.ended
  rwa [meets.faces.stop, meets.faces.ahead, List.tail_cons] at next

theorem Meets.stopEvents (meets : c.Meets stop ahead) : c.stopEvents = trailingLog ahead := by
  have current := meets.faces.current
  have position := meets.faces.position
  rw [Cursor.stopEvents]
  cases ahead with
  | nil =>
    rw [current]
    rfl
  | cons item rest =>
    obtain ⟨lexeme, place⟩ := item
    rw [current, position]
    cases lexeme <;> rfl

/-- Folding logs what the walk over the items says. -/
theorem Meets.fold_events (meets : c.Meets stop ahead) (number : Number) :
    (c.fold number.value number.real).events = logOperators stop number ahead := by
  fun_induction logOperators stop number ahead generalizing c with
  | case1 number op position n place rest refused =>
    obtain ⟨next, events⟩ := meets.advance
    rw [meets.faces.fold_of_zeroDivisor refused, events]
    exact congrArg (scanLog stop _ ++ ·) next.advance.2
  | case2 number op position n place rest applied induction =>
    obtain ⟨next, events⟩ := meets.advance
    obtain ⟨later, others⟩ := next.advance
    have defined : Application.dividesByZero ⟨op, position, n, place⟩ = false :=
      Application.dividesByZero_eq_false_iff.2 applied
    have second : (c.skip 1).advance.events = scanLog stop rest := others
    rw [meets.faces.fold_of_application defined, ← induction later]
    dsimp only
    rw [events, second]
    rfl
  | case3 number op position rest lacks =>
    rw [meets.faces.fold_of_not_startsWithInteger (startsWithInteger_eq_false lacks)]
    exact meets.advance.2
  | case4 _ _ noApplication noOperator =>
    rw [meets.faces.fold_of_not_startsWithOperator (startsWithOperator_eq_false noOperator)]
    exact meets.stopEvents

/-- Evaluating an expression logs what the walk over the items says after the scan of the
first. -/
theorem Meets.expression_events (meets : c.Meets stop ahead) :
    scanLog stop ahead ++ c.expression.events = walkLog stop ahead := by
  cases starts : startsWithInteger ahead with
  | false =>
    rw [walkLog_of_not_startsWithInteger starts, Cursor.expression,
      meets.faces.takeInteger_of_not_startsWithInteger starts]
    exact List.append_nil _
  | true =>
    obtain ⟨n, place, rest, rfl⟩ := exists_integer_of_startsWithInteger starts
    obtain ⟨next, events⟩ := meets.advance
    have folding := next.fold_events ⟨.ofNat n, false⟩
    dsimp only at folding
    rw [Cursor.expression, meets.faces.takeInteger_of_integer]
    dsimp only
    rw [events, folding]
    rfl

end Cursor

/-- The log of an evaluation is that of the walk over the items, and the closing event. -/
theorem evaluateLogged_events (line : List Char) :
    (evaluateLogged line).events =
      walkLog (line.length + 1) (items line) ++ [closingEvent line (evaluate line)] := by
  have fresh : (Token.Stream.ofLine line).ended = false := rfl
  obtain ⟨meets, scan⟩ := Cursor.meets_ofStream fresh
  rw [Token.Stream.stop_ofLine, Token.Stream.ahead_ofLine] at meets scan
  rw [← meets.expression_events, ← scan]
  rfl

end LineCalc
