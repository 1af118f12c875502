import LineCalc.Proofs.EventLogs

/-!
# The log of a fold

The debug log of an evaluation tells the fold operator by operator.  Each operator that is
applied has one entry, with the operator, its operands and its result, and its left operand
is the result of the entry before (`Folds`).  After them comes what the expression stopped
at, if it came to a number before the end of the line, and at last that number or the fault
(`Account`).  An operator that is not applied has no entry.
-/

namespace LineCalc

/-! ## Entries -/

/-- An operator that was applied. -/
def foldEntry (op : Operator) (left right result : Binary64) : Entry :=
  ⟨.debug, "fold", [("left", .number left), ("op", .text (String.singleton op.symbol)),
    ("right", .number right), ("result", .number result)]⟩

/-- What an expression stopped at: a token with its place, or the fault in scanning one.  The
end of the line is not mentioned. -/
def trailingEntries : List Item → List Entry
  | [] => []
  | item :: _ =>
    match item.answer with
    | .ok token => [⟨.debug, "ignoring trailing input",
        [("position", .count item.position), ("token", .text token.display)]⟩]
    | .error error => [⟨.debug, "ignoring trailing input", [("error", .text error.message)]⟩]

def resultEntry (line : List Char) (number : Number) : Entry :=
  ⟨.debug, "evaluated", [("source", .text (String.ofList line)), ("number", .text number.display)]⟩

def faultEntry (line : List Char) (error : LineError) : Entry :=
  ⟨.debug, "evaluation failed",
    [("source", .text (String.ofList line)), ("error", .text error.message)]⟩

/-- The debug log of an evaluation. -/
def debugEntries (line : List Char) : List Entry :=
  (eventsAt .debug (evaluateLogged line).events).map Event.entry

/-! ## Accounts -/

/-- The entries of operators that are applied one after the other, from an accumulator to the
last result. -/
inductive Folds : Binary64 → List Application → List Entry → Binary64 → Prop where
  | nil (result : Binary64) : Folds result [] [] result
  | cons {left result last : Binary64} {a : Application} {later : List Application}
      {entries : List Entry}
      (applied : a.op.apply left (.ofNat a.operand) a.position = .ok result)
      (rest : Folds result later entries last) :
      Folds left (a :: later) (foldEntry a.op left (.ofNat a.operand) result :: entries) last

/-- The operator that items start with is not applied: it lacks its integer, or refuses it. -/
inductive Unapplied (stop : Nat) (left : Binary64) : List Item → LineError → Prop where
  | missing {op : Operator} {position : Nat} {rest : List Item}
      (lacks : startsWithInteger rest = false) :
      Unapplied stop left (⟨.operator op, position⟩ :: rest) (.read (missingInteger stop rest))
  | refused {op : Operator} {position n place : Nat} {rest : List Item} {error : ArithmeticError}
      (fails : op.apply left (.ofNat n) position = .error error) :
      Unapplied stop left (⟨.operator op, position⟩ :: ⟨.integer n, place⟩ :: rest)
        (.arithmetic error)

/-- What a line comes to, with a debug log that accounts for it. -/
inductive Account (line : List Char) : Except LineError Number → List Entry → Prop where
  | noFirst (lacks : startsWithInteger (items line) = false) :
      Account line (.error (.read (missingInteger (line.length + 1) (items line))))
        [faultEntry line (.read (missingInteger (line.length + 1) (items line)))]
  | result {first place : Nat} {applications : List Application} {rest : List Item}
      {folds : List Entry} {last : Binary64} {number : Number}
      (reads : items line = ⟨.integer first, place⟩ :: (applicationItems applications ++ rest))
      (folded : Folds (.ofNat first) applications folds last)
      (ends : startsWithOperator rest = false) (value : number.value = last) :
      Account line (.ok number) (folds ++ trailingEntries rest ++ [resultEntry line number])
  | fault {first place : Nat} {applications : List Application} {rest : List Item}
      {folds : List Entry} {last : Binary64} {error : LineError}
      (reads : items line = ⟨.integer first, place⟩ :: (applicationItems applications ++ rest))
      (folded : Folds (.ofNat first) applications folds last)
      (unapplied : Unapplied (line.length + 1) last rest error) :
      Account line (.error error) (folds ++ [faultEntry line error])

/-! ## Entries of a walk -/

theorem map_entry_trailingLog (items : List Item) :
    (trailingLog items).map Event.entry = trailingEntries items := by
  cases items with
  | nil => rfl
  | cons item rest =>
    rw [trailingLog, trailingEntries]
    cases item.answer <;> rfl

/-- How the fold of a walk ends: with its last result, before items that start with no
operator, or at an operator that is not applied. -/
inductive FoldEnd (stop : Nat) (last : Binary64) (rest : List Item) :
    Except LineError Number → List Entry → Prop where
  | result {number : Number} (ends : startsWithOperator rest = false)
      (value : number.value = last) : FoldEnd stop last rest (.ok number) (trailingEntries rest)
  | fault {error : LineError} (unapplied : Unapplied stop last rest error) :
      FoldEnd stop last rest (.error error) []

/-- The debug log of a walk from the place of an operator on. -/
theorem exists_folds (stop : Nat) (number : Number) (ahead : List Item) :
    ∃ applications rest folds last ending,
      ahead = applicationItems applications ++ rest ∧
      Folds number.value applications folds last ∧
      FoldEnd stop last rest (walkOperators stop number ahead) ending ∧
      (eventsAt .debug (logOperators stop number ahead)).map Event.entry = folds ++ ending := by
  fun_induction logOperators stop number ahead with
  | case1 number op position n place rest refused =>
    have fails : op.apply number.value (.ofNat n) position = .error (.divisionByZero position) := by
      rw [Operator.apply_eq, if_pos refused]
    refine ⟨[], _, [], _, [], rfl, .nil _, ?_, ?_⟩
    · rw [walkOperators, if_pos refused]
      exact .fault (.refused fails)
    · rw [eventsAt_debug_integerLog]
      rfl
  | case2 number op position n place rest applied induction =>
    obtain ⟨applications, later, folds, last, ending, rfl, folded, ends, entries⟩ := induction
    have result : op.apply number.value (.ofNat n) position = .ok (number.extend op n).value := by
      rw [Operator.apply_eq, if_neg applied]
      rfl
    refine ⟨⟨op, position, n, place⟩ :: applications, later, _ :: folds, last, ending, rfl,
      .cons result folded, ?_, ?_⟩
    · rw [walkOperators, if_neg applied]
      exact ends
    · rw [eventsAt_append, eventsAt_debug_integerLog, List.cons_append, ← entries]
      rfl
  | case3 number op position rest lacks =>
    have none := startsWithInteger_eq_false lacks
    refine ⟨[], _, [], _, [], rfl, .nil _, ?_, ?_⟩
    · rw [walkOperators_of_not_startsWithInteger none]
      exact .fault (.missing none)
    · rw [eventsAt_debug_scanLog]
      rfl
  | case4 _ _ noApplication noOperator =>
    have ends := startsWithOperator_eq_false noOperator
    rw [walkOperators_of_not_startsWithOperator ends, eventsAt_debug_trailingLog,
      map_entry_trailingLog]
    exact ⟨[], _, [], _, _, rfl, .nil _, .result ends rfl, rfl⟩

/-! ## The debug log of a line -/

theorem debugEntries_eq (line : List Char) :
    debugEntries line =
      (eventsAt .debug (walkLog (line.length + 1) (items line))).map Event.entry ++
        [(closingEvent line (evaluate line)).entry] := by
  have last : eventsAt .debug [closingEvent line (evaluate line)] =
      [closingEvent line (evaluate line)] := by
    cases evaluate line <;> rfl
  rw [debugEntries, evaluateLogged_events, eventsAt_append, last, List.map_append]
  rfl

/-- The debug log accounts for what a line comes to: one entry for each operator that is
applied, in order and with the results passed on, then what the expression stopped at before
the end of the line, then the number; or, after the applied operators, nothing but the
fault. -/
theorem evaluate_account (line : List Char) : Account line (evaluate line) (debugEntries line) := by
  rw [debugEntries_eq, evaluate_eq_walk]
  cases starts : startsWithInteger (items line) with
  | false =>
    rw [walk_of_not_startsWithInteger starts, walkLog_of_not_startsWithInteger starts,
      eventsAt_debug_scanLog]
    exact .noFirst starts
  | true =>
    obtain ⟨first, place, ahead, reads⟩ := exists_integer_of_startsWithInteger starts
    obtain ⟨applications, rest, folds, last, ending, rfl, folded, ends, entries⟩ :=
      exists_folds (line.length + 1) ⟨.ofNat first, false⟩ ahead
    dsimp only at folded
    rw [reads, walk, walkLog, eventsAt_append, eventsAt_debug_integerLog, List.nil_append, entries]
    generalize walkOperators _ _ _ = answer at ends
    cases ends with
    | result ends value => exact .result reads folded ends value
    | fault unapplied =>
      rw [List.append_nil]
      exact .fault reads folded unapplied

/-- The second integer has no operator before it. -/
example : debugEntries ['6', '/', '4', ' ', '7'] =
    [foldEntry .div (.ofNat 6) (.ofNat 4) ((Binary64.ofNat 6).div (.ofNat 4)),
      ⟨.debug, "ignoring trailing input",
        [("position", .count 5), ("token", .text "Token(INTEGER, 7)")]⟩,
      ⟨.debug, "evaluated", [("source", .text "6/4 7"), ("number", .text "1.5")]⟩] := by
  decide +kernel

end LineCalc
