import LineCalc.Proofs.Evaluation

/-!
# Moved positions

Positions play no part in what a line comes to: a course does not look at them, it
only hands one on to the fault that it may end in.  So items whose positions are all
moved by a function take the same course, with the fault moved by that function
(`Course.mapPosition`), and text that starts later in a line has the same items
further on (`itemsFrom_add`).
-/

namespace LineCalc

/-! ## Faults and courses -/

def ReadError.mapPosition (f : Nat → Nat) : ReadError → ReadError
  | invalidCharacter character position => invalidCharacter character (f position)
  | unexpectedToken expected found position => unexpectedToken expected found (f position)

def ArithmeticError.mapPosition (f : Nat → Nat) : ArithmeticError → ArithmeticError
  | divisionByZero position => divisionByZero (f position)

/-- The same fault at another position. -/
def LineError.mapPosition (f : Nat → Nat) : LineError → LineError
  | read error => read (error.mapPosition f)
  | arithmetic error => arithmetic (error.mapPosition f)

def Item.mapPosition (f : Nat → Nat) (item : Item) : Item := ⟨item.lexeme, f item.position⟩

def Application.mapPosition (f : Nat → Nat) (a : Application) : Application :=
  ⟨a.op, f a.position, a.operand, f a.operandPosition⟩

variable (f : Nat → Nat)

theorem applicationItems_map (applications : List Application) :
    applicationItems (applications.map (Application.mapPosition f)) =
      (applicationItems applications).map (Item.mapPosition f) := by
  induction applications with
  | nil => rfl
  | cons a rest induction =>
    simp only [List.map_cons, applicationItems, induction]
    rfl

theorem applyAll_map (number : Number) (applications : List Application) :
    applyAll number (applications.map (Application.mapPosition f)) =
      applyAll number applications := by
  induction applications generalizing number with
  | nil => rfl
  | cons a rest induction => exact induction (number.extend a.op a.operand)

theorem defined_map {applications : List Application}
    (defined : ∀ a ∈ applications, a.dividesByZero = false) :
    ∀ a ∈ applications.map (Application.mapPosition f), a.dividesByZero = false := by
  intro a membership
  obtain ⟨b, original, rfl⟩ := List.mem_map.1 membership
  exact defined b original

theorem startsWithOperator_map (items : List Item) :
    startsWithOperator (items.map (Item.mapPosition f)) = startsWithOperator items := by
  cases items with
  | nil => rfl
  | cons item rest =>
    obtain ⟨lexeme, position⟩ := item
    cases lexeme <;> rfl

theorem startsWithInteger_map (items : List Item) :
    startsWithInteger (items.map (Item.mapPosition f)) = startsWithInteger items := by
  cases items with
  | nil => rfl
  | cons item rest =>
    obtain ⟨lexeme, position⟩ := item
    cases lexeme <;> rfl

theorem missingInteger_map (stop : Nat) (items : List Item) :
    missingInteger (f stop) (items.map (Item.mapPosition f)) =
      (missingInteger stop items).mapPosition f := by
  cases items with
  | nil => rfl
  | cons item rest =>
    obtain ⟨lexeme, position⟩ := item
    cases lexeme <;> rfl

theorem OperatorCourse.mapPosition {stop : Nat} {number : Number} {ahead : List Item}
    {answer : Except LineError Number} {taken : Nat}
    (course : OperatorCourse stop number ahead answer taken) :
    OperatorCourse (f stop) number (ahead.map (Item.mapPosition f))
      (answer.mapError (LineError.mapPosition f)) taken := by
  cases course with
  | finished applications defined ends =>
    rw [← startsWithOperator_map f] at ends
    have moved : OperatorCourse (f stop) number _ _ _ :=
      .finished (applications.map (Application.mapPosition f)) (defined_map f defined) ends
    rwa [applicationItems_map, ← List.map_append, applyAll_map, List.length_map] at moved
  | @missing applications op position rest defined lacks =>
    rw [← startsWithInteger_map f] at lacks
    have moved : OperatorCourse (f stop) number
        (applicationItems (applications.map (Application.mapPosition f)) ++
          ⟨.operator op, f position⟩ :: rest.map (Item.mapPosition f)) _ _ :=
      .missing _ (defined_map f defined) lacks
    rw [applicationItems_map, missingInteger_map, List.length_map] at moved
    rw [List.map_append]
    exact moved
  | @zeroDivisor applications position n operandPosition rest defined zero =>
    have moved : OperatorCourse (f stop) number
        (applicationItems (applications.map (Application.mapPosition f)) ++
          ⟨.operator .div, f position⟩ :: ⟨.integer n, f operandPosition⟩ ::
            rest.map (Item.mapPosition f)) _ _ :=
      .zeroDivisor _ (defined_map f defined) zero
    rw [applicationItems_map, List.length_map] at moved
    rw [List.map_append]
    exact moved

theorem Course.mapPosition {stop : Nat} {items : List Item} {answer : Except LineError Number}
    {taken : Nat} (course : Course stop items answer taken) :
    Course (f stop) (items.map (Item.mapPosition f))
      (answer.mapError (LineError.mapPosition f)) taken := by
  cases course with
  | noFirst lacks =>
    rw [← startsWithInteger_map f] at lacks
    have moved : Course (f stop) _ _ _ := .noFirst lacks
    rwa [missingInteger_map] at moved
  | operators course => exact .operators (course.mapPosition f)

theorem tokensOf_map (items : List Item) :
    tokensOf (items.map (Item.mapPosition f)) =
      (tokensOf items).mapError (ReadError.mapPosition f) := by
  induction items with
  | nil => rfl
  | cons item rest induction =>
    obtain ⟨lexeme, position⟩ := item
    rw [List.map_cons, tokensOf, tokensOf, induction]
    cases lexeme with
    | integer n => cases tokensOf rest <;> rfl
    | operator op => cases tokensOf rest <;> rfl
    | invalid character => rfl

/-! ## Items -/

theorem beginning?_succ (digit : Bool) (position : Nat) (c : Char) (rest : List Char) :
    beginning? digit (position + 1) c rest =
      (beginning? digit position c rest).map (Item.mapPosition (· + 1)) := by
  rw [beginning?, beginning?]
  split
  next => split <;> rfl
  next => split <;> rfl

theorem itemsAfter_succ (digit : Bool) (position : Nat) (text : List Char) :
    itemsAfter digit (position + 1) text =
      (itemsAfter digit position text).map (Item.mapPosition (· + 1)) := by
  induction text generalizing digit position with
  | nil => rfl
  | cons c rest induction =>
    rw [itemsAfter, itemsAfter, beginning?_succ, induction, List.map_append]
    cases beginning? digit position c rest <;> rfl

/-- Text that starts `n` characters later has its items `n` positions later. -/
theorem itemsFrom_add (position n : Nat) (text : List Char) :
    itemsFrom (position + n) text =
      (itemsFrom position text).map (Item.mapPosition (· + n)) := by
  induction n with
  | zero =>
    have same : Item.mapPosition (· + 0) = id := rfl
    rw [same, List.map_id, Nat.add_zero]
  | succ n induction =>
    have later := itemsAfter_succ false (position + n) text
    rw [← itemsFrom, ← itemsFrom, induction, List.map_map] at later
    exact later

end LineCalc
