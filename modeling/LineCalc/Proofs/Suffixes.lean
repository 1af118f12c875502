import LineCalc.Proofs.CursorRuns
import LineCalc.Proofs.MovedPositions

/-!
# The rest of a line

A cursor in the middle of a line answers as a new cursor on the rest of the line
would, and only counts positions from the start of the line.  Two such cursors
*mirror* each other: they stand on the same items, those of the second moved on.
Whatever both are asked, they give the same answers and still mirror each other
(`Mirrors.ask`), so this holds for runs of any length (`Mirrors.run`).

The rest of the line starts with the token that the cursor stands on
(`mirrors_skip_ofLine`).  At the end of the line nothing is left, and in front of a
fault the rest starts with the character that is at fault.

Hence a line of expressions with blanks between them is evaluated expression by
expression (`ExpressionLine.replies_run`).
-/

namespace LineCalc

/-! ## Answers -/

/-- The same answer with its position moved, if it has one. -/
def Reply.mapPosition (f : Nat → Nat) : Reply → Reply
  | .token answer => .token (answer.mapError (ReadError.mapPosition f))
  | .integer answer => .integer (answer.mapError (ReadError.mapPosition f))
  | .number answer => .number (answer.mapError (LineError.mapPosition f))

/-- The answers of a run in order. -/
def replies (visits : List Visit) : List Reply := visits.map fun visit => visit.reply

theorem replies_run_cons (c : Cursor) (question : Question) (later : List Question) :
    replies (c.run (question :: later)) =
      (c.ask question).answer :: replies ((c.ask question).state.run later) := rfl

/-- The cursor after it was asked one question after the other. -/
def Cursor.askAll (c : Cursor) : List Question → Cursor
  | [] => c
  | question :: later => (c.ask question).state.askAll later

theorem exists_askAll_eq_skip (line : List Char) (k : Nat) (questions : List Question) :
    ∃ later, ((Cursor.ofLine line).skip k).askAll questions = (Cursor.ofLine line).skip later := by
  induction questions generalizing k with
  | nil => exact ⟨k, rfl⟩
  | cons question questions induction =>
    obtain ⟨next, -, state⟩ := exists_moves line k question
    obtain ⟨later, reached⟩ := induction next
    rw [Cursor.askAll, state]
    exact ⟨later, reached⟩

/-! ## Cursors that mirror each other -/

theorem firstAnswer_map (f : Nat → Nat) (items : List Item) :
    firstAnswer (items.map (Item.mapPosition f)) =
      (firstAnswer items).mapError (ReadError.mapPosition f) := by
  cases items with
  | nil => rfl
  | cons item rest =>
    obtain ⟨lexeme, position⟩ := item
    cases lexeme <;> rfl

theorem firstPosition_map (f : Nat → Nat) (stop : Nat) (items : List Item) :
    firstPosition (f stop) (items.map (Item.mapPosition f)) = f (firstPosition stop items) := by
  cases items <;> rfl

/-- The second cursor stands on the items of the first one, with their positions
moved. -/
inductive Mirrors (f : Nat → Nat) (c d : Cursor) : Prop where
  | intro (stop : Nat) (ahead : List Item) (first : c.Faces stop ahead)
      (second : d.Faces (f stop) (ahead.map (Item.mapPosition f)))

variable {f : Nat → Nat} {c d : Cursor}

theorem Mirrors.current (mirrors : Mirrors f c d) :
    d.current = c.current.mapError (ReadError.mapPosition f) := by
  obtain ⟨stop, ahead, first, second⟩ := mirrors
  rw [first.current, second.current, firstAnswer_map]

theorem Mirrors.position (mirrors : Mirrors f c d) : d.position = f c.position := by
  obtain ⟨stop, ahead, first, second⟩ := mirrors
  rw [first.position, second.position, firstPosition_map]

theorem Mirrors.unexpected (mirrors : Mirrors f c d) (expected found : Token.Kind) :
    d.unexpected expected found = (c.unexpected expected found).mapPosition f := by
  rw [Cursor.unexpected, Cursor.unexpected, mirrors.position]
  rfl

theorem Mirrors.skip (mirrors : Mirrors f c d) (n : Nat) : Mirrors f (c.skip n) (d.skip n) := by
  obtain ⟨stop, ahead, first, second⟩ := mirrors
  have later := second.skip n
  rw [← List.map_drop] at later
  exact ⟨stop, ahead.drop n, first.skip n, later⟩

/-! ## Asking both -/

theorem Mirrors.take (mirrors : Mirrors f c d) (kind : Token.Kind) :
    (d.take kind).answer = (c.take kind).answer.mapError (ReadError.mapPosition f) ∧
      Mirrors f (c.take kind).state (d.take kind).state := by
  have current := mirrors.current
  cases found : c.current with
  | error error =>
    rw [found] at current
    rw [Cursor.take_of_error found, Cursor.take_of_error current]
    exact ⟨rfl, mirrors⟩
  | ok token =>
    rw [found] at current
    by_cases same : token.kind = kind
    · rw [Cursor.take_of_kind_eq found same, Cursor.take_of_kind_eq current same]
      exact ⟨rfl, mirrors.skip 1⟩
    · rw [Cursor.take_of_kind_ne found same, Cursor.take_of_kind_ne current same,
        mirrors.unexpected]
      exact ⟨rfl, mirrors⟩

theorem Mirrors.takeInteger (mirrors : Mirrors f c d) :
    d.takeInteger.answer = c.takeInteger.answer.mapError (ReadError.mapPosition f) ∧
      Mirrors f c.takeInteger.state d.takeInteger.state := by
  have current := mirrors.current
  cases found : c.current with
  | error error =>
    rw [found] at current
    rw [Cursor.takeInteger_of_error found, Cursor.takeInteger_of_error current]
    exact ⟨rfl, mirrors⟩
  | ok token =>
    rw [found] at current
    by_cases same : token.kind = .integer
    · obtain ⟨n, rfl⟩ := Token.exists_integer_of_kind_eq same
      rw [Cursor.takeInteger_of_integer found, Cursor.takeInteger_of_integer current]
      exact ⟨rfl, mirrors.skip 1⟩
    · rw [Cursor.takeInteger_of_kind_ne found same, Cursor.takeInteger_of_kind_ne current same,
        mirrors.unexpected]
      exact ⟨rfl, mirrors⟩

/-- Both expressions take the same course, since no course looks at positions. -/
theorem Mirrors.expression (mirrors : Mirrors f c d) :
    d.expression.answer = c.expression.answer.mapError (LineError.mapPosition f) ∧
      Mirrors f c.expression.state d.expression.state := by
  obtain ⟨stop, ahead, first, second⟩ := id mirrors
  obtain ⟨answer, taken, course⟩ := exists_course stop ahead
  obtain ⟨answered, state⟩ := first.expression course
  obtain ⟨moved, movedState⟩ := second.expression (course.mapPosition f)
  rw [answered, state, moved, movedState]
  exact ⟨rfl, mirrors.skip taken⟩

theorem Mirrors.ask (mirrors : Mirrors f c d) (question : Question) :
    (d.ask question).answer = (c.ask question).answer.mapPosition f ∧
      Mirrors f (c.ask question).state (d.ask question).state := by
  cases question with
  | take kind =>
    obtain ⟨answer, later⟩ := mirrors.take kind
    exact ⟨congrArg Reply.token answer, later⟩
  | takeInteger =>
    obtain ⟨answer, later⟩ := mirrors.takeInteger
    exact ⟨congrArg Reply.integer answer, later⟩
  | expression =>
    obtain ⟨answer, later⟩ := mirrors.expression
    exact ⟨congrArg Reply.number answer, later⟩

theorem Mirrors.run (mirrors : Mirrors f c d) (questions : List Question) :
    replies (d.run questions) = (replies (c.run questions)).map (Reply.mapPosition f) := by
  induction questions generalizing c d with
  | nil => rfl
  | cons question questions induction =>
    obtain ⟨answer, later⟩ := mirrors.ask question
    rw [replies_run_cons, replies_run_cons, List.map_cons, answer, induction later]

/-! ## A cursor and the rest of its line -/

/-- What is left of a line from one of its items on has the same items, counted from
the start of the rest. -/
theorem itemsAhead_eq_map {line : List Char} {k : Nat} {item : Item} {after : List Item}
    (found : itemsAhead line k = item :: after) :
    ∃ gone, item.position = gone + 1 ∧ gone ≤ line.length ∧
      itemsAhead line k = (items (line.drop gone)).map (Item.mapPosition (· + gone)) := by
  have split : items line = (items line).take k ++ item :: after := by
    rw [← found, itemsAhead, List.take_append_drop]
  obtain ⟨front, first, back, rfl, cut⟩ := exists_cutBefore split
  have place : item.position = 1 + front.length := cut.position_eq
  have rest : (front ++ first :: back).drop front.length = first :: back := List.drop_left
  have inside : front.length ≤ (front ++ first :: back).length := by simp
  refine ⟨front.length, by omega, inside, ?_⟩
  rw [found, ← cut.items_back, place, itemsFrom_add, rest, items]

/-- A cursor mirrors a new one on what is left of the line, the current token
included. -/
theorem mirrors_skip_ofLine (line : List Char) (k : Nat) :
    ∃ gone, ((Cursor.ofLine line).skip k).position = gone + 1 ∧ gone ≤ line.length ∧
      Mirrors (· + gone) (Cursor.ofLine (line.drop gone)) ((Cursor.ofLine line).skip k) := by
  have faces := Cursor.faces_skip_ofLine line k
  have position := faces.position
  suffices ∃ gone, firstPosition (line.length + 1) (itemsAhead line k) = gone + 1 ∧
      gone ≤ line.length ∧
      itemsAhead line k = (items (line.drop gone)).map (Item.mapPosition (· + gone)) by
    obtain ⟨gone, place, inside, same⟩ := this
    have stop : (line.drop gone).length + 1 + gone = line.length + 1 := by
      rw [List.length_drop]
      omega
    refine ⟨gone, position.trans place, inside, ?_⟩
    rw [same, ← stop] at faces
    exact ⟨_, _, Cursor.faces_ofLine (line.drop gone), faces⟩
  cases found : itemsAhead line k with
  | nil => exact ⟨line.length, rfl, Nat.le_refl _, by rw [List.drop_length]; rfl⟩
  | cons item after =>
    obtain ⟨gone, place, inside, same⟩ := itemsAhead_eq_map found
    exact ⟨gone, place, inside, found ▸ same⟩

/-! ## Lines of expressions -/

/-- A text that is one expression up to its last token. -/
structure EvaluatesWhole (text : List Char) (number : Number) : Prop where
  answer : evaluate text = .ok number
  /-- Nothing is left of the text after the expression. -/
  current : (Cursor.ofLine text).expression.state.current = .ok .endOfInput

/-- A line of expressions and what they come to.  Only blanks stand between two of
them, and no digits of two of them meet. -/
inductive ExpressionLine : List Char → List Number → Prop where
  | blanks {blanks : List Char} (blank : ∀ c ∈ blanks, isBlank c = true) :
      ExpressionLine blanks []
  | cons {blanks text rest : List Char} {number : Number} {numbers : List Number}
      (blank : ∀ c ∈ blanks, isBlank c = true) (whole : EvaluatesWhole text number)
      (separate : Separate text rest) (later : ExpressionLine rest numbers) :
      ExpressionLine (blanks ++ (text ++ rest)) (number :: numbers)

theorem EvaluatesWhole.exists_applications {text : List Char} {number : Number}
    (whole : EvaluatesWhole text number) :
    ∃ n place applications, items text = ⟨.integer n, place⟩ :: applicationItems applications ∧
      (∀ a ∈ applications, a.dividesByZero = false) ∧
      number = applyAll ⟨.ofNat n, false⟩ applications := by
  obtain ⟨n, applications, rest, opens, defined, result, stopped⟩ := exists_opensWith whole.answer
  obtain ⟨place, all⟩ := opens.items_eq
  obtain rfl := eq_nil_of_firstAnswer (stopped.symm.trans whole.current)
  rw [List.append_nil] at all
  exact ⟨n, place, applications, all, defined, result⟩

/-- The items of an expression that stands later in a line. -/
theorem EvaluatesWhole.exists_itemsFrom {text : List Char} {number : Number}
    (whole : EvaluatesWhole text number) (gone : Nat) :
    ∃ n place applications,
      itemsFrom (1 + gone) text = ⟨.integer n, place⟩ :: applicationItems applications ∧
      (∀ a ∈ applications, a.dividesByZero = false) ∧
      number = applyAll ⟨.ofNat n, false⟩ applications := by
  obtain ⟨n, place, applications, found, defined, rfl⟩ := whole.exists_applications
  refine ⟨n, place + gone, applications.map (Application.mapPosition (· + gone)), ?_,
    defined_map _ defined, (applyAll_map _ _ _).symm⟩
  rw [itemsFrom_add, ← items, found, applicationItems_map]
  rfl

/-- An expression within a line has the value that it has by itself, and the cursor is
then on what follows it. -/
theorem EvaluatesWhole.expression {text : List Char} {number : Number} {stop gone : Nat}
    {rest : List Item} (whole : EvaluatesWhole text number)
    (faces : c.Faces stop (itemsFrom (1 + gone) text ++ rest))
    (ends : startsWithOperator rest = false) :
    c.expression.answer = .ok number ∧ c.expression.state.Faces stop rest := by
  obtain ⟨n, place, applications, found, defined, rfl⟩ := whole.exists_itemsFrom gone
  rw [found] at faces
  have course : Course stop (⟨.integer n, place⟩ :: (applicationItems applications ++ rest)) _ _ :=
    .operators (.finished applications defined ends)
  obtain ⟨answer, state⟩ := faces.expression course
  rw [state]
  exact ⟨answer, faces.advance.skip_applicationItems⟩

theorem ExpressionLine.not_startsWithOperator {line : List Char} {numbers : List Number}
    (expressions : ExpressionLine line numbers) (gone : Nat) :
    startsWithOperator (itemsFrom (1 + gone) line) = false := by
  cases expressions with
  | blanks blank =>
    have none := itemsFrom_blanks_append blank (1 + gone) []
    rw [List.append_nil] at none
    rw [none]
    rfl
  | @cons blanks text rest number numbers blank whole separate later =>
    obtain ⟨n, place, applications, found, -⟩ := whole.exists_itemsFrom (gone + blanks.length)
    rw [itemsFrom_blanks_append blank, Nat.add_assoc, itemsFrom_append separate, found]
    rfl

/-- The answers on a line of expressions that ends at position `stop`. -/
def expressionReplies (stop : Nat) (numbers : List Number) : List Reply :=
  numbers.map (fun number => .number (.ok number)) ++
    [.number (.error (.read (.unexpectedToken .integer .endOfInput stop)))]

theorem ExpressionLine.replies_run {line : List Char} {numbers : List Number}
    (expressions : ExpressionLine line numbers) {stop gone : Nat}
    (faces : c.Faces stop (itemsFrom (1 + gone) line)) :
    replies (c.run (List.replicate (numbers.length + 1) .expression)) =
      expressionReplies stop numbers := by
  induction expressions generalizing c gone with
  | blanks blank =>
    have none := itemsFrom_blanks_append blank (1 + gone) []
    rw [List.append_nil] at none
    rw [none] at faces
    have course : Course stop [] _ _ := .noFirst rfl
    obtain ⟨answer, -⟩ := faces.expression course
    rw [List.length_nil, List.replicate_succ, replies_run_cons, Cursor.ask, answer]
    rfl
  | @cons blanks text rest number numbers blank whole separate later induction =>
    rw [itemsFrom_blanks_append blank, itemsFrom_append separate, Nat.add_assoc,
      Nat.add_assoc] at faces
    obtain ⟨answer, next⟩ := whole.expression faces (later.not_startsWithOperator _)
    rw [List.length_cons, List.replicate_succ, replies_run_cons, Cursor.ask, answer,
      induction next]
    rfl

/-! ## Runs on the rest of a line -/

/-- Whatever a cursor was asked before, it answers like a new one on what is left of the
line, with the positions moved on by what is gone; so the expression that it stands on
comes to what the rest of the line comes to.  A line of expressions is evaluated one
expression after the other, up to the end of the line. -/
theorem run_rest (line : List Char) :
    (∀ before : List Question,
      ∃ gone, ((Cursor.ofLine line).askAll before).position = gone + 1 ∧ gone ≤ line.length ∧
        (∀ later : List Question,
          replies (((Cursor.ofLine line).askAll before).run later) =
            (replies ((Cursor.ofLine (line.drop gone)).run later)).map
              (Reply.mapPosition (· + gone))) ∧
        ((Cursor.ofLine line).askAll before).expression.answer =
          (evaluate (line.drop gone)).mapError (LineError.mapPosition (· + gone))) ∧
      ∀ numbers : List Number, ExpressionLine line numbers →
        replies ((Cursor.ofLine line).run (List.replicate (numbers.length + 1) .expression)) =
          expressionReplies (line.length + 1) numbers := by
  constructor
  · intro before
    obtain ⟨k, reached⟩ := exists_askAll_eq_skip line 0 before
    obtain ⟨gone, place, inside, mirrors⟩ := mirrors_skip_ofLine line k
    rw [← reached] at place mirrors
    exact ⟨gone, place, inside, mirrors.run, mirrors.expression.1⟩
  · intro numbers expressions
    have faces : (Cursor.ofLine line).Faces (line.length + 1) (itemsFrom (1 + 0) line) :=
      Cursor.faces_ofLine line
    exact expressions.replies_run faces

/-- A division, a single integer and a negative result on one line. -/
theorem run_rest_three_expressions :
    ExpressionLine " 8/2  7\u30003-5 ".toList
        [⟨.ofNat 4, true⟩, ⟨.ofNat 7, false⟩, ⟨-.ofNat 2, false⟩] ∧
      replies ((Cursor.ofLine " 8/2  7\u30003-5 ".toList).run
          [.expression, .expression, .expression, .expression]) =
        [.number (.ok ⟨.ofNat 4, true⟩), .number (.ok ⟨.ofNat 7, false⟩),
          .number (.ok ⟨-.ofNat 2, false⟩),
          .number (.error (.read (.unexpectedToken .integer .endOfInput 13)))] := by
  have division : EvaluatesWhole ['8', '/', '2'] ⟨.ofNat 4, true⟩ := by
    constructor <;> decide +kernel
  have single : EvaluatesWhole ['7'] ⟨.ofNat 7, false⟩ := by
    constructor <;> decide +kernel
  have difference : EvaluatesWhole ['3', '-', '5'] ⟨-.ofNat 2, false⟩ := by
    constructor <;> decide +kernel
  have space : ∀ c ∈ [' '], isBlank c = true := List.all_eq_true.1 rfl
  have spaces : ∀ c ∈ [' ', ' '], isBlank c = true := List.all_eq_true.1 rfl
  have ideographic : ∀ c ∈ ['\u3000'], isBlank c = true := List.all_eq_true.1 rfl
  have expressions : ExpressionLine
      ([' '] ++ (['8', '/', '2'] ++ ([' ', ' '] ++ (['7'] ++ (['\u3000'] ++
        (['3', '-', '5'] ++ [' '])))))) [⟨.ofNat 4, true⟩, ⟨.ofNat 7, false⟩, ⟨-.ofNat 2, false⟩] :=
    .cons space division (by decide) (.cons spaces single (by decide)
      (.cons ideographic difference (by decide) (.blanks space)))
  exact ⟨expressions, (run_rest _).2 _ expressions⟩

end LineCalc
