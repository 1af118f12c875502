import LineCalc.Proofs.Suffixes

/-!
# Faults that are held back

A cursor never takes what it cannot hand out.  A question for one token that fails leaves the
cursor as it was, so it may be repeated and whatever is asked next is answered as if it had
not been asked (`ask_of_failed`).  On a fault in scanning every question fails, that for an
expression included, and so a run of any length gives the fault as its answer each time and
ends where it began (`run_of_current_eq_error`), although the stream itself would go on
after the fault.
-/

namespace LineCalc

/-- The answer to a question that fails with a fault in reading. -/
def Question.failure (error : ReadError) : Question → Reply
  | .take _ => .token (.error error)
  | .takeInteger => .integer (.error error)
  | .expression => .number (.error (.read error))

/-- A question with that answer, after which the cursor is the same. -/
def Question.failedVisit (error : ReadError) (c : Cursor) (question : Question) : Visit :=
  ⟨question, question.failure error, c⟩

namespace Cursor

variable {c : Cursor} {error : ReadError}

/-! ## Failed takes -/

/-- A question for one token that fails moves nothing. -/
theorem ask_of_failed {question : Question} (one : question ≠ .expression)
    (failed : (c.ask question).answer = question.failure error) :
    c.ask question = ⟨question.failure error, c, []⟩ := by
  cases question with
  | take kind =>
    have answer : (c.take kind).answer = .error error := Reply.token.inj failed
    rw [ask, take_of_failed answer]
    rfl
  | takeInteger =>
    have answer : c.takeInteger.answer = .error error := Reply.integer.inj failed
    rw [ask, takeInteger_of_failed answer]
    rfl
  | expression => exact absurd rfl one

theorem run_replicate_of_ask {question : Question}
    (asked : c.ask question = ⟨question.failure error, c, []⟩) (count : Nat)
    (later : List Question) :
    c.run (List.replicate count question ++ later) =
      List.replicate count (question.failedVisit error c) ++ c.run later := by
  induction count with
  | zero => rfl
  | succ count induction =>
    rw [List.replicate_succ, List.cons_append, run, asked]
    dsimp only
    rw [induction, List.replicate_succ, List.cons_append]
    rfl

/-! ## Cursors on a fault -/

/-- Every question asks for the current token first. -/
theorem ask_of_current_eq_error (held : c.current = .error error) (question : Question) :
    c.ask question = ⟨question.failure error, c, []⟩ := by
  have integer : c.takeInteger = ⟨.error error, c, []⟩ := takeInteger_of_error held
  cases question with
  | take kind =>
    rw [ask, take_of_error held]
    rfl
  | takeInteger =>
    rw [ask, integer]
    rfl
  | expression =>
    rw [ask, expression, integer]
    rfl

theorem run_of_current_eq_error (held : c.current = .error error) (questions : List Question) :
    c.run questions = questions.map (·.failedVisit error c) ∧ c.askAll questions = c := by
  induction questions with
  | nil => exact ⟨rfl, rfl⟩
  | cons question questions induction =>
    obtain ⟨visits, last⟩ := induction
    rw [run, askAll, ask_of_current_eq_error held question]
    dsimp only
    rw [visits, last, List.map_cons]
    exact ⟨rfl, rfl⟩

example : (ofLine "$ 1+1".toList).askAll [.expression, .take .endOfInput, .takeInteger] =
    ofLine "$ 1+1".toList :=
  (run_of_current_eq_error rfl _).2

/-- A failed question for one token leaves the cursor as it was: asked any number of times it
fails with the same fault, and a run goes on as if it had not been asked.  On a fault in
scanning every question of a run fails with it, and the cursor stays where it is. -/
theorem failure_moves_nothing (c : Cursor) :
    (∀ question error, question ≠ .expression →
      (c.ask question).answer = question.failure error →
      (c.ask question).state = c ∧ (c.ask question).events = [] ∧
        ∀ count later, c.run (List.replicate count question ++ later) =
          List.replicate count (question.failedVisit error c) ++ c.run later) ∧
    ∀ error, c.current = .error error → ∀ questions,
      c.run questions = questions.map (·.failedVisit error c) ∧ c.askAll questions = c := by
  refine ⟨fun question error one failed => ?_, fun error => run_of_current_eq_error⟩
  have asked := ask_of_failed one failed
  rw [asked]
  exact ⟨rfl, rfl, run_replicate_of_ask asked⟩

end Cursor

end LineCalc
