import LineCalc.Proofs.Evaluation

/-!
# Runs of a cursor

A cursor may be asked anything in any order.  Whatever the answers, it stands on an
item of the line with the stream scanned just past it, and its position keeps in step
with that of the stream (`OnItem`); past the last item it stands on the end of the
line, which is there for ever.  `Moves` lists the answers that there are to a question
and how far each takes the cursor.  So the tokens that are taken are items of the line
in order, and with the items that expressions went over they are all items up to the
cursor, each of them once (`run_follows`).
-/

namespace LineCalc

/-! ## Places in a line -/

namespace Token.Stream

/-- The stream after a number of scans. -/
def scan : Nat → Stream → Stream
  | 0, s => s
  | n + 1, s => scan n s.next.state

theorem scan_succ (n : Nat) (s : Stream) : s.scan (n + 1) = (s.scan n).next.state := by
  induction n generalizing s with
  | zero => rfl
  | succ n induction => exact induction s.next.state

end Token.Stream

/-- The items of a line from an index on, counted from 0. -/
def itemsAhead (line : List Char) (k : Nat) : List Item := (items line).drop k

/-- The cursor stands on the item with index `k`, and the stream is scanned up to
that item.  The cursor's position is that of its item and that of its stream. -/
structure OnItem (line : List Char) (k : Nat) (c : Cursor) : Prop where
  current : c.current = firstAnswer (itemsAhead line k)
  scanned : c.current = ((Token.Stream.ofLine line).scan k).next.answer
  position : c.position = firstPosition (line.length + 1) (itemsAhead line k)
  inStep : c.position = c.stream.position
  stream : c.stream = (Token.Stream.ofLine line).scan (k + 1)

namespace Cursor

theorem skip_ofStream (n : Nat) (s : Token.Stream) :
    (ofStream s).skip n = ofStream (s.scan n) := by
  induction n generalizing s with
  | zero => rfl
  | succ n induction => exact induction s.next.state

theorem faces_skip_ofLine (line : List Char) (k : Nat) :
    ((ofLine line).skip k).Faces (line.length + 1) (itemsAhead line k) :=
  (faces_ofLine line).skip k

theorem onItem_skip_ofLine (line : List Char) (k : Nat) :
    OnItem line k ((ofLine line).skip k) := by
  obtain ⟨current, position, -, -⟩ := faces_skip_ofLine line k
  refine ⟨current, ?_, position, ?_, ?_⟩
  · rw [ofLine, skip_ofStream]
    rfl
  · rw [ofLine, skip_ofStream]
    rfl
  · rw [ofLine, skip_ofStream, Token.Stream.scan_succ]
    rfl

end Cursor

/-! ## Questions -/

/-- What a cursor may be asked. -/
inductive Question where
  | take (kind : Token.Kind)
  | takeInteger
  | expression
  deriving DecidableEq

/-- What a cursor answers. -/
inductive Reply where
  | token (answer : Except ReadError Token)
  | integer (answer : Except ReadError Nat)
  | number (answer : Except LineError Number)

/-- The tokens that an answer hands out. -/
def Reply.taken : Reply → List Token
  | .token (.ok found) => [found]
  | .integer (.ok n) => [.integer n]
  | _ => []

/-- One question with its answer and the cursor after it. -/
structure Visit where
  question : Question
  reply : Reply
  after : Cursor

namespace Cursor

def ask (c : Cursor) : Question → Step Cursor Reply
  | .take kind =>
    let step := c.take kind
    ⟨.token step.answer, step.state, step.events⟩
  | .takeInteger =>
    let step := c.takeInteger
    ⟨.integer step.answer, step.state, step.events⟩
  | .expression =>
    let step := c.expression
    ⟨.number step.answer, step.state, step.events⟩

/-- Asks one question after the other. -/
def run (c : Cursor) : List Question → List Visit
  | [] => []
  | question :: later =>
    let step := c.ask question
    ⟨question, step.answer, step.state⟩ :: step.state.run later

end Cursor

/-! ## Moves -/

/-- The answers to a question that is asked on the item with index `k`, each with
the index that the cursor moves to. -/
inductive Moves (line : List Char) (k : Nat) : Question → Reply → Nat → Prop where
  | took {kind : Token.Kind} {token : Token}
      (found : firstAnswer (itemsAhead line k) = .ok token) (same : token.kind = kind) :
      Moves line k (.take kind) (.token (.ok token)) (k + 1)
  | refused {kind : Token.Kind} {token : Token}
      (found : firstAnswer (itemsAhead line k) = .ok token) (other : token.kind ≠ kind) :
      Moves line k (.take kind)
        (.token (.error (.unexpectedToken kind token.kind
          (firstPosition (line.length + 1) (itemsAhead line k))))) k
  | heldBack {kind : Token.Kind} {error : ReadError}
      (found : firstAnswer (itemsAhead line k) = .error error) :
      Moves line k (.take kind) (.token (.error error)) k
  | tookInteger {n : Nat} (found : firstAnswer (itemsAhead line k) = .ok (.integer n)) :
      Moves line k .takeInteger (.integer (.ok n)) (k + 1)
  | refusedInteger (lacks : startsWithInteger (itemsAhead line k) = false) :
      Moves line k .takeInteger
        (.integer (.error (missingInteger (line.length + 1) (itemsAhead line k)))) k
  | evaluated {n position : Nat} (applications : List Application)
      (found : itemsAhead line k = ⟨.integer n, position⟩ :: (applicationItems applications ++
        itemsAhead line (k + (2 * applications.length + 1))))
      (defined : ∀ a ∈ applications, a.dividesByZero = false)
      (ends : startsWithOperator (itemsAhead line (k + (2 * applications.length + 1))) = false) :
      Moves line k .expression (.number (.ok (applyAll ⟨.ofNat n, false⟩ applications)))
        (k + (2 * applications.length + 1))
  | lacksFirst (lacks : startsWithInteger (itemsAhead line k) = false) :
      Moves line k .expression
        (.number (.error (.read (missingInteger (line.length + 1) (itemsAhead line k))))) k
  | lacksLater {n position : Nat} {op : Operator} {operatorPosition : Nat}
      (applications : List Application)
      (found : itemsAhead line k = ⟨.integer n, position⟩ :: (applicationItems applications ++
        ⟨.operator op, operatorPosition⟩ ::
          itemsAhead line (k + 2 * (applications.length + 1))))
      (defined : ∀ a ∈ applications, a.dividesByZero = false)
      (lacks : startsWithInteger (itemsAhead line (k + 2 * (applications.length + 1))) = false) :
      Moves line k .expression
        (.number (.error (.read (missingInteger (line.length + 1)
          (itemsAhead line (k + 2 * (applications.length + 1)))))))
        (k + 2 * (applications.length + 1))
  | dividedByZero {n position m operatorPosition operandPosition : Nat}
      (applications : List Application)
      (found : itemsAhead line k = ⟨.integer n, position⟩ :: (applicationItems applications ++
        ⟨.operator .div, operatorPosition⟩ :: ⟨.integer m, operandPosition⟩ ::
          itemsAhead line (k + (2 * (applications.length + 1) + 1))))
      (defined : ∀ a ∈ applications, a.dividesByZero = false)
      (zero : (Binary64.ofNat m).isZero = true) :
      Moves line k .expression
        (.number (.error (.arithmetic (.divisionByZero operatorPosition))))
        (k + (2 * (applications.length + 1) + 1))

theorem itemsAhead_add {line : List Char} {k : Nat} (front : List Item) {rest : List Item}
    (found : itemsAhead line k = front ++ rest) :
    itemsAhead line (k + front.length) = rest := by
  rw [itemsAhead, ← List.drop_drop, ← itemsAhead, found, List.drop_left]

theorem Course.moves {line : List Char} {k : Nat} {answer : Except LineError Number}
    {taken : Nat} (course : Course (line.length + 1) (itemsAhead line k) answer taken) :
    Moves line k .expression (.number answer) (k + taken) := by
  generalize same : itemsAhead line k = ahead at course
  cases course with
  | noFirst lacks =>
    subst same
    exact .lacksFirst lacks
  | @operators n position _ _ _ course =>
    cases course with
    | @finished applications rest defined ends =>
      have later := itemsAhead_add (⟨.integer n, position⟩ :: applicationItems applications) same
      rw [List.length_cons, length_applicationItems] at later
      subst later
      exact .evaluated applications same defined ends
    | @missing applications op place rest defined lacks =>
      have split : itemsAhead line k =
          (⟨.integer n, position⟩ :: applicationItems applications ++ [⟨.operator op, place⟩]) ++
            rest := by
        rw [same]
        simp
      have later := itemsAhead_add _ split
      rw [List.length_append, List.length_cons, length_applicationItems] at later
      subst later
      exact .lacksLater applications same defined lacks
    | @zeroDivisor applications place m operandPosition rest defined zero =>
      have split : itemsAhead line k =
          (⟨.integer n, position⟩ :: applicationItems applications ++
            [⟨.operator .div, place⟩, ⟨.integer m, operandPosition⟩]) ++ rest := by
        rw [same]
        simp
      have later := itemsAhead_add _ split
      rw [List.length_append, List.length_cons, length_applicationItems] at later
      subst later
      exact .dividedByZero applications same defined zero

/-- Every question is answered by a move. -/
theorem exists_moves (line : List Char) (k : Nat) (question : Question) :
    ∃ later, Moves line k question (((Cursor.ofLine line).skip k).ask question).answer later ∧
      (((Cursor.ofLine line).skip k).ask question).state = (Cursor.ofLine line).skip later := by
  have faces := Cursor.faces_skip_ofLine line k
  have advanced (n : Nat) : ((Cursor.ofLine line).skip k).skip n =
      (Cursor.ofLine line).skip (k + n) := Cursor.skip_add k n _
  cases question with
  | take kind =>
    have current := faces.current
    have position := faces.position
    cases found : firstAnswer (itemsAhead line k) with
    | error error =>
      rw [found] at current
      rw [Cursor.ask, Cursor.take_of_error current]
      exact ⟨k, .heldBack found, rfl⟩
    | ok token =>
      rw [found] at current
      by_cases same : token.kind = kind
      · rw [Cursor.ask, Cursor.take_of_kind_eq current same]
        exact ⟨k + 1, .took found same, advanced 1⟩
      · rw [Cursor.ask, Cursor.take_of_kind_ne current same, Cursor.unexpected, position]
        exact ⟨k, .refused found same, rfl⟩
  | takeInteger =>
    cases starts : startsWithInteger (itemsAhead line k) with
    | false =>
      rw [Cursor.ask, faces.takeInteger_of_not_startsWithInteger starts]
      exact ⟨k, .refusedInteger starts, rfl⟩
    | true =>
      obtain ⟨n, place, rest, same⟩ := exists_integer_of_startsWithInteger starts
      have found : firstAnswer (itemsAhead line k) = .ok (.integer n) := by
        rw [same]
        rfl
      rw [same] at faces
      rw [Cursor.ask, faces.takeInteger_of_integer]
      exact ⟨k + 1, .tookInteger found, advanced 1⟩
  | expression =>
    obtain ⟨answer, taken, course⟩ := exists_course (line.length + 1) (itemsAhead line k)
    obtain ⟨same, state⟩ := faces.expression course
    rw [Cursor.ask]
    dsimp only
    rw [same, state, advanced]
    exact ⟨k + taken, course.moves, rfl⟩

/-! ## Runs -/

/-- The indices of the items that an expression went over. -/
def Question.folded (k later : Nat) : Question → List Nat
  | .expression => List.range' k (later - k)
  | _ => []

/-- The visits of a run that starts on the item with index `k`, with the indices of
the items that were taken for tokens, the indices of those that expressions went over
and the index that the run ends on. -/
inductive Follows (line : List Char) : Nat → List Visit → List Nat → List Nat → Nat → Prop where
  | nil (k : Nat) : Follows line k [] [] [] k
  | cons {k later last : Nat} {visit : Visit} {visits : List Visit} {taken folded : List Nat}
      (move : Moves line k visit.question visit.reply later)
      (stands : OnItem line later visit.after)
      (rest : Follows line later visits taken folded last) :
      Follows line k (visit :: visits) (visit.reply.taken.map (fun _ => k) ++ taken)
        (visit.question.folded k later ++ folded) last

/-- The tokens that a run hands out. -/
def tokensTaken (visits : List Visit) : List Token := visits.flatMap fun visit => visit.reply.taken

variable {line : List Char} {k later last : Nat} {question : Question} {reply : Reply}
  {visits : List Visit} {taken folded : List Nat}

/-- A token that is handed out is the one that the cursor stood on. -/
theorem Moves.firstAnswer_of_mem_taken (move : Moves line k question reply later) :
    reply.taken.map .ok = reply.taken.map fun _ => firstAnswer (itemsAhead line k) := by
  refine List.map_congr_left fun token membership => ?_
  cases move with
  | took found same =>
    obtain rfl := List.mem_singleton.1 membership
    exact found.symm
  | tookInteger found =>
    obtain rfl := List.mem_singleton.1 membership
    exact found.symm
  | refused | heldBack | refusedInteger | evaluated | lacksFirst | lacksLater | dividedByZero =>
    cases membership

theorem Moves.le (move : Moves line k question reply later) : k ≤ later := by
  cases move with
  | took | tookInteger => exact Nat.le_succ k
  | refused | heldBack | refusedInteger | lacksFirst => exact Nat.le_refl k
  | evaluated | lacksLater | dividedByZero => exact Nat.le_add_right k _

/-- A move passes over items that it takes or folds. -/
theorem Moves.taken_append_folded (move : Moves line k question reply later) :
    reply.taken.map (fun _ => k) ++ question.folded k later = List.range' k (later - k) := by
  cases move with
  | took | tookInteger => simp [Reply.taken, Question.folded]
  | refused | heldBack | refusedInteger => simp [Reply.taken, Question.folded]
  | evaluated | lacksFirst | lacksLater | dividedByZero => rfl

theorem Follows.le (follows : Follows line k visits taken folded last) : k ≤ last := by
  induction follows with
  | nil k => exact Nat.le_refl k
  | cons move stands rest induction => exact Nat.le_trans move.le induction

theorem range'_append_range' {k later last : Nat} (first : k ≤ later) (second : later ≤ last) :
    List.range' k (later - k) ++ List.range' later (last - later) =
      List.range' k (last - k) := by
  have split := List.range'_append_1 (s := k) (m := later - k) (n := last - later)
  rwa [Nat.add_sub_cancel' first, show later - k + (last - later) = last - k by omega] at split

theorem Follows.sublist (follows : Follows line k visits taken folded last) :
    taken.Sublist (List.range' k (last - k)) := by
  induction follows with
  | nil k => exact List.nil_sublist _
  | cons move stands rest induction =>
    rw [← range'_append_range' move.le rest.le, ← move.taken_append_folded]
    exact (List.sublist_append_left _ _).append induction

theorem Follows.perm (follows : Follows line k visits taken folded last) :
    (taken ++ folded).Perm (List.range' k (last - k)) := by
  induction follows with
  | nil k => simp
  | @cons k later last visit visits taken folded move stands rest induction =>
    rw [← range'_append_range' move.le rest.le, ← move.taken_append_folded]
    refine .trans ?_ (induction.append_left _)
    rw [List.append_assoc, List.append_assoc]
    exact (List.perm_append_comm_assoc taken _ folded).append_left _

theorem Follows.tokensTaken_eq (follows : Follows line k visits taken folded last) :
    (tokensTaken visits).map .ok = taken.map fun i => firstAnswer (itemsAhead line i) := by
  induction follows with
  | nil k => rfl
  | @cons k later last visit visits taken folded move stands rest induction =>
    rw [tokensTaken, List.flatMap_cons, ← tokensTaken, List.map_append, List.map_append,
      induction, move.firstAnswer_of_mem_taken, List.map_map]
    rfl

theorem exists_follows (line : List Char) (k : Nat) (questions : List Question) :
    ∃ taken folded last,
      Follows line k (((Cursor.ofLine line).skip k).run questions) taken folded last := by
  induction questions generalizing k with
  | nil => exact ⟨[], [], k, .nil k⟩
  | cons question questions induction =>
    obtain ⟨later, move, state⟩ := exists_moves line k question
    obtain ⟨taken, folded, last, rest⟩ := induction later
    rw [← state] at rest
    have stands := Cursor.onItem_skip_ofLine line later
    rw [← state] at stands
    exact ⟨_, _, last, .cons move stands rest⟩

/-- A cursor stands on an item of its line at the start and after every answer, and
each answer moves it as far as it has to.  The tokens that it hands out are items of
the line in order, and no item before the cursor is lost or met twice. -/
theorem run_follows (line : List Char) (questions : List Question) :
    OnItem line 0 (Cursor.ofLine line) ∧
      ∃ taken folded last,
        Follows line 0 ((Cursor.ofLine line).run questions) taken folded last ∧
        (tokensTaken ((Cursor.ofLine line).run questions)).map .ok =
          (taken.map fun i => firstAnswer (itemsAhead line i)) ∧
        taken.Pairwise (· < ·) ∧ (taken ++ folded).Perm (List.range last) := by
  obtain ⟨taken, folded, last, follows⟩ := exists_follows line 0 questions
  refine ⟨Cursor.onItem_skip_ofLine line 0, taken, folded, last, follows,
    follows.tokensTaken_eq, .sublist follows.sublist List.pairwise_lt_range', ?_⟩
  rw [List.range_eq_range']
  exact follows.perm

end LineCalc
