import LineCalc.Proofs.Suffixes
import Mathlib.Data.List.Forall2

/-!
# Two questions for an integer

A cursor is asked for an integer in two ways: for a token of that kind, or for the value of
the token.  Both look at the current token only, and what they hand out on moving is the
token that was current (`Cursor.advance_answer`), not the one that the move scans; so a
fault right after an integer fails neither of them.  Hence they succeed together, fail
together with the same fault, and leave the same cursor (`Cursor.integer_taken_or_refused`).

Runs that are *alike* ask the same questions, except that at any places one asks for the
token where the other asks for the value.  Their cursors are the same after every question
(`Cursor.run_of_alike`).
-/

namespace LineCalc

/-! ## Runs that are alike -/

/-- Questions that differ at most in how they ask for an integer. -/
inductive Question.Alike : Question → Question → Prop where
  | refl (question : Question) : Alike question question
  | integer : Alike (.take .integer) .takeInteger
  | symm {question other : Question} (alike : Alike question other) : Alike other question

/-- Visits that differ at most in how an integer is asked for and handed out, as a token or as
its value.  A fault and the cursor afterwards are the same. -/
inductive Visit.Alike : Visit → Visit → Prop where
  | refl (visit : Visit) : Alike visit visit
  | taken (n : Nat) (after : Cursor) :
      Alike ⟨.take .integer, .token (.ok (.integer n)), after⟩
        ⟨.takeInteger, .integer (.ok n), after⟩
  | refused (error : ReadError) (after : Cursor) :
      Alike ⟨.take .integer, .token (.error error), after⟩
        ⟨.takeInteger, .integer (.error error), after⟩
  | symm {visit other : Visit} (alike : Alike visit other) : Alike other visit

theorem Visit.Alike.after_eq {visit other : Visit} (alike : visit.Alike other) :
    visit.after = other.after := by
  induction alike with
  | refl visit => rfl
  | taken n after => rfl
  | refused error after => rfl
  | symm alike induction => exact induction.symm

namespace Cursor

/-! ## Runs -/

/-- The visit of a question. -/
def visit (c : Cursor) (question : Question) : Visit :=
  ⟨question, (c.ask question).answer, (c.ask question).state⟩

theorem visit_of_alike {question other : Question} (alike : question.Alike other) (c : Cursor) :
    (c.visit question).Alike (c.visit other) := by
  induction alike with
  | refl question => exact .refl _
  | symm alike induction => exact .symm induction
  | integer =>
    rw [visit, visit, ask, ask]
    obtain ⟨n, -, token, value⟩ | ⟨error, -, token, value⟩ := c.integer_taken_or_refused
    · rw [token, value]
      exact .taken n c.advance.state
    · rw [token, value]
      exact .refused error c

theorem run_of_alike {questions others : List Question}
    (alike : List.Forall₂ Question.Alike questions others) (c : Cursor) :
    List.Forall₂ Visit.Alike (c.run questions) (c.run others) ∧
      c.askAll questions = c.askAll others := by
  induction alike generalizing c with
  | nil => exact ⟨.nil, rfl⟩
  | @cons question other questions others first later induction =>
    have visits := visit_of_alike first c
    have same : (c.ask question).state = (c.ask other).state := visits.after_eq
    obtain ⟨rest, last⟩ := induction (c.ask question).state
    rw [run, run, askAll, askAll, ← same]
    rw [visit, visit, ← same] at visits
    exact ⟨.cons visits rest, last⟩

/-- On every cursor the two questions for an integer come to the same.  Both hand out the
integer that the cursor is on, as a token and as its value, and move past it, or both fail with
the same fault and stay; they leave the same cursor and log the same events.  So a run may ask
either of them for the other at any places: its visits stay alike, and it ends on the same
cursor. -/
theorem takeInteger_replaces_take (c : Cursor) :
    ((∃ n, c.current = .ok (.integer n) ∧ (c.take .integer).answer = .ok (.integer n) ∧
        c.takeInteger.answer = .ok n ∧ c.takeInteger.state = c.advance.state) ∨
      ∃ error, (∀ n, c.current ≠ .ok (.integer n)) ∧
        (c.take .integer).answer = .error error ∧ c.takeInteger.answer = .error error ∧
          c.takeInteger.state = c) ∧
    (c.take .integer).state = c.takeInteger.state ∧
    (c.take .integer).events = c.takeInteger.events ∧
    ∀ questions others, List.Forall₂ Question.Alike questions others →
      List.Forall₂ Visit.Alike (c.run questions) (c.run others) ∧
        c.askAll questions = c.askAll others := by
  have runs := fun questions others (alike : List.Forall₂ Question.Alike questions others) =>
    run_of_alike alike c
  obtain ⟨n, current, token, value⟩ | ⟨error, other, token, value⟩ := c.integer_taken_or_refused
  · rw [token, value]
    exact ⟨.inl ⟨n, current, rfl, rfl, rfl⟩, rfl, rfl, runs⟩
  · rw [token, value]
    exact ⟨.inr ⟨error, other, rfl, rfl, rfl⟩, rfl, rfl, runs⟩

/-- An integer with a fault right after it: the first question takes the integer, and the other
two find the fault. -/
theorem takeInteger_replaces_take_before_fault :
    List.Forall₂ Question.Alike [.takeInteger, .take .integer, .expression]
        [.take .integer, .takeInteger, .expression] ∧
      List.Forall₂ Visit.Alike
        ((ofLine "12$3".toList).run [.takeInteger, .take .integer, .expression])
        ((ofLine "12$3".toList).run [.take .integer, .takeInteger, .expression]) ∧
      (ofLine "12$3".toList).askAll [.takeInteger, .take .integer, .expression] =
        (ofLine "12$3".toList).askAll [.take .integer, .takeInteger, .expression] := by
  have alike : List.Forall₂ Question.Alike [.takeInteger, .take .integer, .expression]
      [.take .integer, .takeInteger, .expression] :=
    .cons (.symm .integer) (.cons .integer (.cons (.refl _) .nil))
  exact ⟨alike, (takeInteger_replaces_take _).2.2.2 _ _ alike⟩

end Cursor

end LineCalc
