import LineCalc.Fault
import LineCalc.Number
import LineCalc.Proofs.Items

/-!
# The walk over the items

What a line comes to is a walk over its items from the left: an integer first,
and then an operator and an integer as often as an operator stands there
(`walk`).  The end of the line is no item; its position is handed to the walk,
which needs it for the one fault that is found there.

A walk goes in one of four ways, and a `Course` says which: no integer stands
first; all operators are applied and no further one follows; an operator lacks
its integer; or an operator divides by zero.  It names the operators that were
applied and the integers on their right, and counts the items that the walk took.
`Course.walk_eq` says that a course has the answer of the walk.
-/

namespace LineCalc

/-! ## Applying operators -/

namespace Operator

/-- The number that an operator makes of two, also where it is refused. -/
def combine : Operator → Binary64 → Binary64 → Binary64
  | add, left, right => left + right
  | sub, left, right => left - right
  | mul, left, right => left * right
  | div, left, right => left / right

/-- Only a division by zero is refused. -/
theorem apply_eq (op : Operator) (left right : Binary64) (position : Nat) :
    op.apply left right position =
      if op = div ∧ right.isZero = true then .error (.divisionByZero position)
      else .ok (op.combine left right) := by
  cases op with
  | add => rfl
  | sub => rfl
  | mul => rfl
  | div => simp [apply, combine]

end Operator

/-- The result so far with one more operator applied to it. -/
def Number.extend (number : Number) (op : Operator) (n : Nat) : Number :=
  ⟨op.combine number.value (.ofNat n), number.real || op = .div⟩

/-! ## The walk -/

/-- The fault of items that do not start with an integer where one is
required. -/
def missingInteger (stop : Nat) : List Item → ReadError
  | [] => .unexpectedToken .integer .endOfInput stop
  | ⟨.invalid c, position⟩ :: _ => .invalidCharacter c position
  | ⟨.operator op, position⟩ :: _ => .unexpectedToken .integer (.operator op) position
  -- An integer is not missing; this case is never asked for.
  | ⟨.integer _, position⟩ :: _ => .unexpectedToken .integer .integer position

/-- The walk from the place of an operator on, with the result so far. -/
def walkOperators (stop : Nat) (number : Number) : List Item → Except LineError Number
  | ⟨.operator op, position⟩ :: ⟨.integer n, _⟩ :: rest =>
    if op = .div ∧ (Binary64.ofNat n).isZero = true then
      .error (.arithmetic (.divisionByZero position))
    else
      walkOperators stop (number.extend op n) rest
  | ⟨.operator _, _⟩ :: rest => .error (.read (missingInteger stop rest))
  | _ => .ok number

/-- The walk over the items of a line that ends at position `stop`. -/
def walk (stop : Nat) : List Item → Except LineError Number
  | ⟨.integer n, _⟩ :: rest => walkOperators stop ⟨.ofNat n, false⟩ rest
  | items => .error (.read (missingInteger stop items))

/-! ## Courses -/

/-- An operator with the integer on its right. -/
structure Application where
  op : Operator
  position : Nat
  operand : Nat
  operandPosition : Nat
  deriving DecidableEq

/-- Whether an operator is refused. -/
def Application.dividesByZero (a : Application) : Bool :=
  a.op = .div && (Binary64.ofNat a.operand).isZero

theorem Application.dividesByZero_eq_false_iff {a : Application} :
    a.dividesByZero = false ↔ ¬(a.op = .div ∧ (Binary64.ofNat a.operand).isZero = true) := by
  simp [dividesByZero]

/-- The items of applications in order, two for each. -/
def applicationItems : List Application → List Item
  | [] => []
  | a :: rest =>
    ⟨.operator a.op, a.position⟩ :: ⟨.integer a.operand, a.operandPosition⟩ ::
      applicationItems rest

@[simp] theorem length_applicationItems (applications : List Application) :
    (applicationItems applications).length = 2 * applications.length := by
  induction applications with
  | nil => rfl
  | cons a rest induction =>
    simp only [applicationItems, List.length_cons, induction]
    omega

theorem applicationItems_append (front back : List Application) :
    applicationItems (front ++ back) = applicationItems front ++ applicationItems back := by
  induction front with
  | nil => rfl
  | cons a front induction => simp only [List.cons_append, applicationItems, induction]

/-- The result of applying operators in order. -/
def applyAll (number : Number) : List Application → Number
  | [] => number
  | a :: rest => applyAll (number.extend a.op a.operand) rest

/-- A result is marked just if a division went into it. -/
theorem real_applyAll (number : Number) (applications : List Application) :
    (applyAll number applications).real = true ↔
      number.real = true ∨ ∃ a ∈ applications, a.op = .div := by
  induction applications generalizing number with
  | nil => simp [applyAll]
  | cons a rest induction => simp [applyAll, induction, Number.extend, or_assoc]

/-- A first integer is given the mark of a real result by a division only. -/
theorem real_applyAll_eq_false_iff (value : Binary64) (applications : List Application) :
    (applyAll ⟨value, false⟩ applications).real = false ↔ ∀ a ∈ applications, a.op ≠ .div := by
  rw [← Bool.not_eq_true, real_applyAll]
  simp

def startsWithOperator : List Item → Bool
  | ⟨.operator _, _⟩ :: _ => true
  | _ => false

def startsWithInteger : List Item → Bool
  | ⟨.integer _, _⟩ :: _ => true
  | _ => false

theorem startsWithOperator_eq_false {items : List Item}
    (lacks : ∀ op position rest, items = ⟨.operator op, position⟩ :: rest → False) :
    startsWithOperator items = false := by
  rw [startsWithOperator]
  exact lacks

theorem startsWithInteger_eq_false {items : List Item}
    (lacks : ∀ n position rest, items = ⟨.integer n, position⟩ :: rest → False) :
    startsWithInteger items = false := by
  rw [startsWithInteger]
  exact lacks

theorem exists_integer_of_startsWithInteger {items : List Item}
    (starts : startsWithInteger items = true) :
    ∃ n position rest, items = ⟨.integer n, position⟩ :: rest := by
  cases items with
  | nil => cases starts
  | cons item rest =>
    obtain ⟨lexeme, position⟩ := item
    cases lexeme with
    | integer n => exact ⟨n, position, rest, rfl⟩
    | operator op => cases starts
    | invalid c => cases starts

/-- The way of a walk from the place of an operator on, with its answer and the
number of items that it takes. -/
inductive OperatorCourse (stop : Nat) (number : Number) :
    List Item → Except LineError Number → Nat → Prop where
  | finished (applications : List Application) {rest : List Item}
      (defined : ∀ a ∈ applications, a.dividesByZero = false)
      (ends : startsWithOperator rest = false) :
      OperatorCourse stop number (applicationItems applications ++ rest)
        (.ok (applyAll number applications)) (2 * applications.length)
  | missing (applications : List Application) {op : Operator} {position : Nat}
      {rest : List Item}
      (defined : ∀ a ∈ applications, a.dividesByZero = false)
      (lacks : startsWithInteger rest = false) :
      OperatorCourse stop number
        (applicationItems applications ++ ⟨.operator op, position⟩ :: rest)
        (.error (.read (missingInteger stop rest))) (2 * applications.length + 1)
  | zeroDivisor (applications : List Application) {position n operandPosition : Nat}
      {rest : List Item}
      (defined : ∀ a ∈ applications, a.dividesByZero = false)
      (zero : (Binary64.ofNat n).isZero = true) :
      OperatorCourse stop number
        (applicationItems applications ++
          ⟨.operator .div, position⟩ :: ⟨.integer n, operandPosition⟩ :: rest)
        (.error (.arithmetic (.divisionByZero position))) (2 * applications.length + 2)

/-- The way of a walk over the items of a line that ends at position `stop`, with
its answer and the number of items that it takes. -/
inductive Course (stop : Nat) : List Item → Except LineError Number → Nat → Prop where
  | noFirst {items : List Item} (lacks : startsWithInteger items = false) :
      Course stop items (.error (.read (missingInteger stop items))) 0
  | operators {n position : Nat} {rest : List Item} {answer : Except LineError Number}
      {taken : Nat} (course : OperatorCourse stop ⟨.ofNat n, false⟩ rest answer taken) :
      Course stop (⟨.integer n, position⟩ :: rest) answer (taken + 1)

/-- One more operator in front of a course. -/
theorem OperatorCourse.cons {stop : Nat} {number : Number} {ahead : List Item}
    {answer : Except LineError Number} {taken : Nat} {a : Application}
    (defined : a.dividesByZero = false)
    (course : OperatorCourse stop (number.extend a.op a.operand) ahead answer taken) :
    OperatorCourse stop number
      (⟨.operator a.op, a.position⟩ :: ⟨.integer a.operand, a.operandPosition⟩ :: ahead)
      answer (taken + 2) := by
  cases course with
  | finished applications all ends =>
    exact .finished (a :: applications) (List.forall_mem_cons.2 ⟨defined, all⟩) ends
  | missing applications all lacks =>
    exact .missing (a :: applications) (List.forall_mem_cons.2 ⟨defined, all⟩) lacks
  | zeroDivisor applications all zero =>
    exact .zeroDivisor (a :: applications) (List.forall_mem_cons.2 ⟨defined, all⟩) zero

/-! ## The answer of a course -/

theorem walkOperators_of_not_startsWithOperator {ahead : List Item}
    (ends : startsWithOperator ahead = false) (stop : Nat) (number : Number) :
    walkOperators stop number ahead = .ok number := by
  cases ahead with
  | nil => rfl
  | cons item rest =>
    obtain ⟨lexeme, position⟩ := item
    cases lexeme with
    | integer n => rfl
    | operator op => cases ends
    | invalid c => rfl

theorem walkOperators_of_not_startsWithInteger {rest : List Item}
    (lacks : startsWithInteger rest = false) (stop : Nat) (number : Number) (op : Operator)
    (position : Nat) :
    walkOperators stop number (⟨.operator op, position⟩ :: rest) =
      .error (.read (missingInteger stop rest)) := by
  cases rest with
  | nil => rfl
  | cons item rest =>
    obtain ⟨lexeme, place⟩ := item
    cases lexeme with
    | integer n => cases lacks
    | operator op => rfl
    | invalid c => rfl

/-- The walk goes over operators that are not refused. -/
theorem walkOperators_applicationItems_append {applications : List Application}
    (defined : ∀ a ∈ applications, a.dividesByZero = false) (stop : Nat) (number : Number)
    (rest : List Item) :
    walkOperators stop number (applicationItems applications ++ rest) =
      walkOperators stop (applyAll number applications) rest := by
  induction applications generalizing number with
  | nil => rfl
  | cons a applications induction =>
    obtain ⟨first, later⟩ := List.forall_mem_cons.1 defined
    have applied := Application.dividesByZero_eq_false_iff.1 first
    rw [applicationItems, List.cons_append, List.cons_append, walkOperators, if_neg applied]
    exact induction later _

theorem OperatorCourse.walkOperators_eq {stop : Nat} {number : Number} {ahead : List Item}
    {answer : Except LineError Number} {taken : Nat}
    (course : OperatorCourse stop number ahead answer taken) :
    walkOperators stop number ahead = answer := by
  cases course with
  | finished applications defined ends =>
    rw [walkOperators_applicationItems_append defined]
    exact walkOperators_of_not_startsWithOperator ends stop _
  | missing applications defined lacks =>
    rw [walkOperators_applicationItems_append defined]
    exact walkOperators_of_not_startsWithInteger lacks stop _ _ _
  | zeroDivisor applications defined zero =>
    rw [walkOperators_applicationItems_append defined, walkOperators, if_pos ⟨rfl, zero⟩]

theorem walk_of_not_startsWithInteger {items : List Item} (lacks : startsWithInteger items = false)
    (stop : Nat) : walk stop items = .error (.read (missingInteger stop items)) := by
  cases items with
  | nil => rfl
  | cons item rest =>
    obtain ⟨lexeme, position⟩ := item
    cases lexeme with
    | integer n => cases lacks
    | operator op => rfl
    | invalid c => rfl

theorem Course.walk_eq {stop : Nat} {items : List Item} {answer : Except LineError Number}
    {taken : Nat} (course : Course stop items answer taken) : walk stop items = answer := by
  cases course with
  | noFirst lacks => exact walk_of_not_startsWithInteger lacks stop
  | operators course => exact course.walkOperators_eq

/-! ## Every walk has a course -/

theorem exists_operatorCourse (stop : Nat) (number : Number) (ahead : List Item) :
    ∃ answer taken, OperatorCourse stop number ahead answer taken := by
  fun_induction walkOperators stop number ahead with
  | case1 number op position n operandPosition rest divides =>
    obtain ⟨rfl, zero⟩ := divides
    exact ⟨_, _, .zeroDivisor [] (List.forall_mem_nil _) zero⟩
  | case2 number op position n operandPosition rest applied induction =>
    obtain ⟨answer, taken, course⟩ := induction
    have defined : Application.dividesByZero ⟨op, position, n, operandPosition⟩ = false :=
      Application.dividesByZero_eq_false_iff.2 applied
    exact ⟨answer, taken + 2, course.cons defined⟩
  | case3 number op position rest lacks =>
    exact ⟨_, _, .missing [] (List.forall_mem_nil _) (startsWithInteger_eq_false lacks)⟩
  | case4 ahead number noApplication noOperator =>
    exact ⟨_, _, .finished [] (List.forall_mem_nil _) (startsWithOperator_eq_false noOperator)⟩

theorem exists_course (stop : Nat) (items : List Item) :
    ∃ answer taken, Course stop items answer taken := by
  cases starts : startsWithInteger items with
  | false => exact ⟨_, _, .noFirst starts⟩
  | true =>
    obtain ⟨n, position, rest, rfl⟩ := exists_integer_of_startsWithInteger starts
    obtain ⟨answer, taken, course⟩ := exists_operatorCourse stop ⟨.ofNat n, false⟩ rest
    exact ⟨answer, taken + 1, .operators course⟩

end LineCalc
