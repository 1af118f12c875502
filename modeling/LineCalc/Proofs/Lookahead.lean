import LineCalc.Proofs.Agreement
import LineCalc.Proofs.EventLogs

/-!
# One token of lookahead

Evaluating a line and listing its tokens scan the same items from the left; they differ in
where they stop.  An evaluation that takes some items scans these and one more, so its scans
are the first ones of the listing (`Course.scans`), and a line that begins with the same
items has the same result, whatever follows them (`Course.of_shared`).

An operator is applied, and logged, when its operand and what follows the operand have been
scanned and nothing further (`scans_before_fold`).
-/

namespace LineCalc

/-! ## Scans in a row -/

/-- What a number of scans log, from the first of items on.  The end of the line is logged
once. -/
def scanLogs (stop : Nat) : Nat → List Item → List Event
  | 0, _ => []
  | _ + 1, [] => scanLog stop []
  | k + 1, item :: rest => scanLog stop (item :: rest) ++ scanLogs stop k rest

/-- The number of tokens before the first character that starts none. -/
def leadingTokens : List Item → Nat
  | [] => 0
  | item :: rest =>
    match item.answer with
    | .error _ => 0
    | .ok _ => leadingTokens rest + 1

variable {stop k : Nat}

@[simp] theorem scanLogs_one (stop : Nat) (items : List Item) :
    scanLogs stop 1 items = scanLog stop items := by
  cases items with
  | nil => rfl
  | cons item rest => exact List.append_nil _

theorem scanLogs_succ {items : List Item} (inside : k ≤ items.length) :
    scanLogs stop (k + 1) items = scanLog stop items ++ scanLogs stop k items.tail := by
  cases items with
  | nil =>
    obtain rfl := Nat.le_zero.1 inside
    rfl
  | cons item rest => rfl

theorem scanLogs_isPrefix {j : Nat} (le : j ≤ k) (items : List Item) :
    scanLogs stop j items <+: scanLogs stop k items := by
  induction items generalizing j k with
  | nil =>
    cases j with
    | zero => exact List.nil_prefix
    | succ j =>
      cases k with
      | zero => cases le
      | succ k => exact List.prefix_rfl
  | cons item rest induction =>
    cases j with
    | zero => exact List.nil_prefix
    | succ j =>
      cases k with
      | zero => cases le
      | succ k => exact (List.prefix_append_right_inj _).2 (induction (Nat.le_of_succ_le_succ le))

/-- Items that are not scanned play no part, nor does the end of the line. -/
theorem scanLogs_of_take {items others : List Item} (inside : k ≤ items.length)
    (same : items.take k = others.take k) (stop later : Nat) :
    scanLogs stop k items = scanLogs later k others := by
  induction k generalizing items others with
  | zero => rfl
  | succ k induction =>
    cases items with
    | nil => cases inside
    | cons item rest =>
      cases others with
      | nil => cases same
      | cons other tail =>
        obtain ⟨rfl, rests⟩ := List.cons.inj same
        have later := induction (Nat.le_of_succ_le_succ inside) rests
        rw [scanLogs, scanLogs, scanLog_cons, scanLog_cons, later]

theorem level_of_mem_scanLogs {items : List Item} {event : Event}
    (membership : event ∈ scanLogs stop k items) : event.level = .trace := by
  induction k generalizing items with
  | zero => cases membership
  | succ k induction =>
    cases items with
    | nil => exact level_of_mem_scanLog membership
    | cons item rest =>
      rcases List.mem_append.1 membership with first | later
      · exact level_of_mem_scanLog first
      · exact induction later

theorem countP_scanLogs_le (k : Nat) (items : List Item) :
    (scanLogs stop k items).countP Event.isEndOfInput ≤ 1 := by
  induction k generalizing items with
  | zero => exact Nat.zero_le 1
  | succ k induction =>
    cases items with
    | nil => exact Nat.le_refl 1
    | cons item rest =>
      have later := induction rest
      rw [scanLogs, scanLog_cons]
      cases item.answer with
      | error error => exact later
      | ok token => exact later

theorem leadingTokens_le_length (items : List Item) : leadingTokens items ≤ items.length := by
  induction items with
  | nil => exact Nat.le_refl 0
  | cons item rest induction =>
    rw [leadingTokens]
    split
    · exact Nat.zero_le _
    · exact Nat.succ_le_succ induction

/-! ## Scans of a listing -/

/-- Listing tokens scans up to the first character that starts none. -/
theorem Token.Stream.drain_events (s : Stream) (fresh : s.ended = false) :
    s.drain.events = scanLogs s.stop (leadingTokens s.ahead + 1) s.ahead := by
  generalize same : s.ahead = ahead
  induction ahead generalizing s with
  | nil =>
    have scan := next_of_ahead_eq_nil same
    rw [drain]
    dsimp only
    split
    next error failed =>
      rw [scan] at failed
      cases failed
    next token found =>
      rw [scan] at found
      cases found
      rw [if_pos rfl, scan, fresh]
      rfl
  | cons item rest induction =>
    obtain ⟨state, scan, later, stop, -, ended⟩ := next_of_ahead_eq_cons same
    have answer : s.next.answer = item.answer := by rw [scan]
    rw [drain, leadingTokens]
    dsimp only
    split
    next error failed =>
      rw [answer] at failed
      simp only [failed, scan]
      rw [Nat.zero_add, scanLogs_one, scanLog_cons, failed]
    next token found =>
      rw [answer] at found
      have inner : token ≠ .endOfInput := by
        rintro rfl
        exact item.answer_ne_endOfInput found
      rw [if_neg inner, scan]
      simp only [found]
      rw [induction state (ended.trans fresh) later, stop, scanLogs, scanLog_cons, found]

/-! ## Scans of an evaluation -/

/-- A walk that takes some items from the place of an operator on scans as many after the
operator, whose own scan went before. -/
structure Scans (stop : Nat) (number : Number) (ahead : List Item) (taken : Nat) : Prop where
  within : taken ≤ leadingTokens ahead
  events : eventsAt .trace (logOperators stop number ahead) = scanLogs stop taken ahead.tail

/-- One more operator in front. -/
theorem Scans.cons {number : Number} {ahead : List Item} {taken : Nat} {a : Application}
    (defined : a.dividesByZero = false)
    (scans : Scans stop (number.extend a.op a.operand) ahead taken) :
    Scans stop number
      (⟨.operator a.op, a.position⟩ :: ⟨.integer a.operand, a.operandPosition⟩ :: ahead)
      (taken + 2) := by
  have applied := Application.dividesByZero_eq_false_iff.1 defined
  have inside := Nat.le_trans scans.within (leadingTokens_le_length ahead)
  have folded : eventsAt .trace (logOperators stop number
      (⟨.operator a.op, a.position⟩ :: ⟨.integer a.operand, a.operandPosition⟩ :: ahead)) =
        integerLog stop a.operandPosition a.operand ahead ++
          eventsAt .trace (logOperators stop (number.extend a.op a.operand) ahead) := by
    rw [logOperators, if_neg applied, eventsAt_append, eventsAt_trace_integerLog]
    rfl
  refine ⟨Nat.add_le_add_right scans.within 2, ?_⟩
  rw [folded, scans.events, List.tail_cons, scanLogs, scanLogs_succ inside]
  rfl

theorem Scans.applicationItems_append {number : Number} {applications : List Application}
    {rest : List Item} {taken : Nat} (defined : ∀ a ∈ applications, a.dividesByZero = false)
    (scans : Scans stop (applyAll number applications) rest taken) :
    Scans stop number (applicationItems applications ++ rest)
      (2 * applications.length + taken) := by
  induction applications generalizing number with
  | nil =>
    rw [List.length_nil, Nat.mul_zero, Nat.zero_add]
    exact scans
  | cons a applications induction =>
    obtain ⟨first, others⟩ := List.forall_mem_cons.1 defined
    have grown := (induction others scans).cons first
    rwa [show 2 * applications.length + taken + 2 = 2 * (a :: applications).length + taken by
      rw [List.length_cons]; omega] at grown

theorem OperatorCourse.scans {number : Number} {ahead : List Item}
    {answer : Except LineError Number} {taken : Nat}
    (course : OperatorCourse stop number ahead answer taken) :
    Scans stop number ahead taken := by
  cases course with
  | finished applications defined ends =>
    refine Scans.applicationItems_append defined ⟨Nat.zero_le _, ?_⟩
    rw [logOperators_of_not_startsWithOperator ends, eventsAt_trace_trailingLog]
    rfl
  | missing applications defined lacks =>
    refine Scans.applicationItems_append defined ⟨Nat.succ_le_succ (Nat.zero_le _), ?_⟩
    rw [logOperators_of_not_startsWithInteger lacks, eventsAt_trace_scanLog, List.tail_cons,
      scanLogs_one]
  | @zeroDivisor applications position n place rest defined zero =>
    refine Scans.applicationItems_append defined ⟨Nat.add_le_add_right (Nat.zero_le _) 2, ?_⟩
    rw [logOperators, if_pos ⟨rfl, zero⟩, eventsAt_trace_integerLog, List.tail_cons, scanLogs,
      scanLogs_one]
    rfl

/-- A walk that takes some items takes tokens only, and scans these and one item more. -/
theorem Course.scans {items : List Item} {answer : Except LineError Number} {taken : Nat}
    (course : Course stop items answer taken) :
    taken ≤ leadingTokens items ∧
      eventsAt .trace (walkLog stop items) = scanLogs stop (taken + 1) items := by
  cases course with
  | noFirst lacks =>
    rw [walkLog_of_not_startsWithInteger lacks, eventsAt_trace_scanLog, scanLogs_one]
    exact ⟨Nat.zero_le _, rfl⟩
  | operators course =>
    obtain ⟨within, events⟩ := course.scans
    have inside := Nat.le_trans within (leadingTokens_le_length _)
    refine ⟨Nat.succ_le_succ within, ?_⟩
    rw [walkLog, eventsAt_append, eventsAt_trace_integerLog, events, scanLogs,
      scanLogs_succ inside]
    rfl

/-! ## What is not scanned -/

/-- The item after some of those that are seen, if one more than these is seen. -/
theorem exists_last_seen {front tail before rest : List Item}
    (whole : front ++ tail = before ++ rest) (seen : front.length = before.length + 1) :
    ∃ item others, front = before ++ [item] ∧ rest = item :: others := by
  rcases List.append_eq_append_iff.1 whole with ⟨between, rfl, -⟩ | ⟨between, rfl, rfl⟩
  · rw [List.length_append] at seen
    omega
  · rw [List.length_append, Nat.add_left_cancel_iff] at seen
    obtain ⟨item, rfl⟩ := List.length_eq_one_iff.1 seen
    exact ⟨item, tail, rfl, rfl⟩

/-- A walk depends on the items that it takes and on the next one. -/
theorem OperatorCourse.of_shared {number : Number} {front tail : List Item}
    {answer : Except LineError Number} {taken : Nat}
    (course : OperatorCourse stop number (front ++ tail) answer taken)
    (seen : front.length = taken + 1) (others : List Item) (later : Nat) :
    OperatorCourse later number (front ++ others) answer taken := by
  generalize whole : front ++ tail = ahead at course
  cases course with
  | @finished applications rest defined ends =>
    obtain ⟨item, rest, rfl, rfl⟩ := exists_last_seen whole (by simp [seen])
    rw [List.append_assoc]
    exact .finished applications defined ((startsWithOperator_cons item _ rest).trans ends)
  | @missing applications op position rest defined lacks =>
    rw [List.append_cons] at whole
    obtain ⟨item, rest, rfl, rfl⟩ := exists_last_seen whole (by simp [seen])
    rw [List.append_assoc, List.append_assoc, missingInteger_cons stop later item rest others]
    exact .missing applications defined ((startsWithInteger_cons item _ rest).trans lacks)
  | @zeroDivisor applications position n place rest defined zero =>
    rw [List.append_cons, List.append_cons] at whole
    obtain ⟨item, rest, rfl, rfl⟩ := exists_last_seen whole (by simp [seen])
    rw [List.append_assoc, List.append_assoc, List.append_assoc]
    exact .zeroDivisor applications defined zero

theorem Course.of_shared {front tail : List Item} {answer : Except LineError Number}
    {taken : Nat} (course : Course stop (front ++ tail) answer taken)
    (seen : front.length = taken + 1) (others : List Item) (later : Nat) :
    Course later (front ++ others) answer taken := by
  cases front with
  | nil => cases seen
  | cons item front =>
    rw [List.cons_append] at course ⊢
    cases course with
    | noFirst lacks =>
      rw [missingInteger_cons stop later item (front ++ tail) (front ++ others)]
      exact .noFirst ((startsWithInteger_cons item _ _).trans lacks)
    | operators course => exact .operators (course.of_shared (Nat.succ.inj seen) others later)

/-! ## Folds between scans -/

/-- An event that is not among the first events stands after them. -/
theorem exists_of_append_eq {front back before after : List Event} {event : Event}
    (absent : event ∉ front) (split : front ++ back = before ++ event :: after) :
    ∃ between, before = front ++ between ∧ back = between ++ event :: after := by
  rcases List.append_eq_append_iff.1 split with ⟨between, rfl, rest⟩ | ⟨between, rfl, rest⟩
  · exact ⟨between, rfl, rest⟩
  · cases between with
    | nil => exact ⟨[], by simp, rest.symm⟩
    | cons first between =>
      obtain ⟨rfl, -⟩ := List.cons.inj rest
      exact absurd (List.mem_append_right before List.mem_cons_self) absent

/-- An event that is not the last stands before it. -/
theorem exists_of_concat_eq {front before after : List Event} {last event : Event}
    (other : event ≠ last) (split : front ++ [last] = before ++ event :: after) :
    ∃ between, front = before ++ event :: between := by
  rcases List.eq_nil_or_concat after with rfl | ⟨between, final, rfl⟩
  · exact absurd (List.append_inj_right' split rfl).symm (by simpa using other)
  · rw [List.concat_eq_append, ← List.cons_append, ← List.append_assoc] at split
    exact ⟨between, List.append_inj_left' split rfl⟩

theorem ne_append_cons {events before after : List Event} {event : Event}
    (absent : event ∉ events) : events ≠ before ++ event :: after := by
  rintro rfl
  exact absent (List.mem_append_right before List.mem_cons_self)

theorem not_mem_of_isFold {events : List Event} {fold : Event} (isFold : fold.isFold = true)
    (none : ∀ event ∈ events, event.isFold = false) : fold ∉ events :=
  fun membership => Bool.false_ne_true ((none fold membership).symm.trans isFold)

theorem countP_isFold_eq_zero {events : List Event}
    (none : ∀ event ∈ events, event.isFold = false) : events.countP Event.isFold = 0 :=
  List.countP_eq_zero.2 fun event membership => by simp [none event membership]

theorem not_isFold_of_mem_integerLog {place n : Nat} {rest : List Item} :
    ∀ event ∈ integerLog stop place n rest, event.isFold = false :=
  fun _ membership => not_isFold_of_trace (level_of_mem_integerLog membership)

theorem not_isFold_of_mem_scanLog {items : List Item} :
    ∀ event ∈ scanLog stop items, event.isFold = false :=
  fun _ membership => not_isFold_of_trace (level_of_mem_scanLog membership)

/-- Before an operator is applied, two items are scanned for each operator applied so far and
two for itself. -/
theorem scans_before_fold {number : Number} {ahead : List Item} {before after : List Event}
    {fold : Event} (isFold : fold.isFold = true)
    (split : logOperators stop number ahead = before ++ fold :: after) :
    2 * before.countP Event.isFold + 2 ≤ ahead.length ∧
      eventsAt .trace before = scanLogs stop (2 * before.countP Event.isFold + 2) ahead.tail := by
  fun_induction logOperators stop number ahead generalizing before with
  | case1 number op position n place rest refused =>
    exact absurd split (ne_append_cons (not_mem_of_isFold isFold not_isFold_of_mem_integerLog))
  | case2 number op position n place rest applied induction =>
    obtain ⟨between, rfl, later⟩ :=
      exists_of_append_eq (not_mem_of_isFold isFold not_isFold_of_mem_integerLog) split
    rw [List.countP_append, countP_isFold_eq_zero not_isFold_of_mem_integerLog, Nat.zero_add,
      eventsAt_append, eventsAt_trace_integerLog, List.tail_cons]
    cases between with
    | nil =>
      refine ⟨by simp, ?_⟩
      rw [List.countP_nil, Nat.mul_zero, scanLogs, scanLogs_one]
      exact List.append_nil _
    | cons first between =>
      obtain ⟨rfl, others⟩ := List.cons.inj later
      obtain ⟨within, scans⟩ := induction others
      have count : (Event.folded op number.value (.ofNat n) (number.extend op n).value ::
          between).countP Event.isFold = between.countP Event.isFold + 1 :=
        List.countP_cons_of_pos rfl
      have trace : eventsAt .trace (Event.folded op number.value (.ofNat n)
          (number.extend op n).value :: between) = eventsAt .trace between := rfl
      rw [count, trace, scans]
      refine ⟨Nat.add_le_add_right within 2, ?_⟩
      rw [Nat.mul_succ, scanLogs, scanLogs_succ within]
      rfl
  | case3 number op position rest lacks =>
    exact absurd split (ne_append_cons (not_mem_of_isFold isFold not_isFold_of_mem_scanLog))
  | case4 _ _ noApplication noOperator =>
    exact absurd split
      (ne_append_cons (not_mem_of_isFold isFold fun _ membership =>
        (level_isFold_of_mem_trailingLog membership).2))

theorem walkLog_scans_before_fold {items : List Item} {before after : List Event} {fold : Event}
    (isFold : fold.isFold = true) (split : walkLog stop items = before ++ fold :: after) :
    eventsAt .trace before = scanLogs stop (2 * before.countP Event.isFold + 4) items := by
  cases starts : startsWithInteger items with
  | false =>
    rw [walkLog_of_not_startsWithInteger starts] at split
    exact absurd split (ne_append_cons (not_mem_of_isFold isFold not_isFold_of_mem_scanLog))
  | true =>
    obtain ⟨n, place, rest, rfl⟩ := exists_integer_of_startsWithInteger starts
    rw [walkLog] at split
    obtain ⟨between, rfl, later⟩ :=
      exists_of_append_eq (not_mem_of_isFold isFold not_isFold_of_mem_integerLog) split
    obtain ⟨within, scans⟩ := scans_before_fold isFold later
    rw [List.countP_append, countP_isFold_eq_zero not_isFold_of_mem_integerLog, Nat.zero_add,
      eventsAt_append, eventsAt_trace_integerLog, scans, scanLogs, scanLogs_succ within]
    rfl

/-! ## Lines -/

/-- The scans that a line is evaluated with. -/
def evaluateScans (line : List Char) : List Event := eventsAt .trace (evaluateLogged line).events

/-- The scans that the tokens of a line are listed with. -/
def tokenizeScans (line : List Char) : List Event := eventsAt .trace (tokenizeLogged line).events

theorem not_isFold_closingEvent (line : List Char) (answer : Except LineError Number) :
    (closingEvent line answer).isFold = false := by
  cases answer <;> rfl

theorem evaluateScans_eq (line : List Char) :
    evaluateScans line = eventsAt .trace (walkLog (line.length + 1) (items line)) := by
  have last : eventsAt .trace [closingEvent line (evaluate line)] = [] := by
    cases evaluate line <;> rfl
  rw [evaluateScans, evaluateLogged_events, eventsAt_append, last, List.append_nil]

theorem tokenizeScans_eq (line : List Char) :
    tokenizeScans line =
      scanLogs (line.length + 1) (leadingTokens (items line) + 1) (items line) := by
  have fresh : (Token.Stream.ofLine line).ended = false := rfl
  have events := Token.Stream.drain_events _ fresh
  rw [Token.Stream.stop_ofLine, Token.Stream.ahead_ofLine] at events
  rw [tokenizeScans, tokenizeLogged, events]
  refine eventsAt_of_level fun event membership => ?_
  exact level_of_mem_scanLogs membership

theorem countP_isEndOfInput_eventsAt (events : List Event) :
    (eventsAt .trace events).countP Event.isEndOfInput = events.countP Event.isEndOfInput := by
  rw [eventsAt, List.countP_filter]
  congr 1
  funext event
  cases event <;> rfl

/-- The scans of an evaluation are the first scans of the listing.  An evaluation that takes
some tokens has scanned these and the next item, and stands on it; what follows that item
changes neither the result nor the scans.  Each operator is applied when the item after its
operand has been scanned and no later one, and the end of the line is logged once at most. -/
theorem evaluate_scans_one_ahead (line : List Char) :
    evaluateScans line <+: tokenizeScans line ∧
      ∃ taken, Course (line.length + 1) (items line) (evaluate line) taken ∧
        taken ≤ (items line).length ∧ OnItem line taken (Cursor.ofLine line).expression.state ∧
        evaluateScans line = scanLogs (line.length + 1) (taken + 1) (items line) ∧
        (∀ other, taken < (items line).length →
          (items other).take (taken + 1) = (items line).take (taken + 1) →
          evaluate other = evaluate line ∧ evaluateScans other = evaluateScans line) ∧
        (∀ before fold after, fold.isFold = true →
          (evaluateLogged line).events = before ++ fold :: after →
          eventsAt .trace before =
            scanLogs (line.length + 1) (2 * before.countP Event.isFold + 4) (items line)) ∧
        (evaluateLogged line).events.countP Event.isEndOfInput ≤ 1 := by
  obtain ⟨answer, taken, course⟩ := exists_course (line.length + 1) (items line)
  obtain rfl := evaluate_of_course course
  obtain ⟨within, walked⟩ := course.scans
  rw [← evaluateScans_eq] at walked
  have inside := Nat.le_trans within (leadingTokens_le_length (items line))
  refine ⟨?_, taken, course, inside, ?_, walked, ?_, ?_, ?_⟩
  · rw [walked, tokenizeScans_eq]
    exact scanLogs_isPrefix (Nat.succ_le_succ within) (items line)
  · rw [((Cursor.faces_ofLine line).expression course).2]
    exact Cursor.onItem_skip_ofLine line taken
  · intro other more same
    have seen : ((items line).take (taken + 1)).length = taken + 1 :=
      List.length_take_of_le more
    rw [← List.take_append_drop (taken + 1) (items line)] at course
    have shared := course.of_shared seen ((items other).drop (taken + 1)) (other.length + 1)
    rw [← same, List.take_append_drop] at shared
    refine ⟨evaluate_of_course shared, ?_⟩
    rw [evaluateScans_eq, shared.scans.2, walked]
    exact (scanLogs_of_take more same.symm _ _).symm
  · intro before fold after isFold split
    rw [evaluateLogged_events] at split
    have other : fold ≠ closingEvent line (evaluate line) := by
      rintro rfl
      exact Bool.false_ne_true ((not_isFold_closingEvent line _).symm.trans isFold)
    obtain ⟨between, walk⟩ := exists_of_concat_eq other split
    exact walkLog_scans_before_fold isFold walk
  · rw [← countP_isEndOfInput_eventsAt, ← evaluateScans, walked]
    exact countP_scanLogs_le _ _

/-- The expression is one integer, and the second one is seen to be no operator. -/
example : evaluateScans ['1', ' ', '2', '?'] = [.scanned 1 (.integer 1), .scanned 3 (.integer 2)] ∧
    tokenizeScans ['1', ' ', '2', ' ', '+'] =
      [.scanned 1 (.integer 1), .scanned 3 (.integer 2), .scanned 5 (.operator .add),
        .endOfInput 6] := by
  decide +kernel

end LineCalc
