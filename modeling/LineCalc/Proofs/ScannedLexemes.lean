import LineCalc.Proofs.CursorRuns
import LineCalc.Proofs.FaultPlaces
import LineCalc.Proofs.Lexing

/-!
# Scans and lexemes

The lexemes of a line have their places in bytes and its items have theirs in characters.
What a stream has not taken are lexemes, each an item at the character of its first byte
(`Token.Stream.HasTaken.ahead_eq`), so the scans of a line answer its lexemes one after the other,
faults included, and then the end of the line for ever (`scanAnswer_of_placed`,
`scanAnswer_of_length_le`).  Each scan is at a later position than the one before it, up to
the first that finds the end of the line (`scanPosition_lt_scanPosition`).

The faults of all scans are the characters of the line that are neither blank nor digit nor
operator, in order (`scannedFaults_eq`).
-/

namespace LineCalc

/-! ## Positions of lexemes -/

/-- The item that a lexeme of a line is. -/
def Lexeme.Placed.item (line : List Char) (p : Placed) : Item :=
  ⟨p.lexeme, charPosition line p.start⟩

/-- A stream is ahead of the lexemes that it has not taken. -/
theorem Token.Stream.HasTaken.ahead_eq {line front : List Char} {s : Stream}
    (taken : s.HasTaken line front) :
    s.ahead = (Lexeme.placedFrom (utf8Length front) s.rest).map (Lexeme.Placed.item line) := by
  -- The induction is on the lexemes left; one scan takes the first of them.
  generalize lexemes : Lexeme.placedFrom (utf8Length front) s.rest = left
  induction left generalizing s front with
  | nil =>
    obtain ⟨cut, found, -⟩ | ⟨none, -⟩ := taken.next_cases
    · rw [Lexeme.placedFrom_of_cut? found] at lexemes
      cases lexemes
    · exact itemsFrom_of_cut?_eq_none none _
  | cons p left induction =>
    obtain ⟨cut, found, place, moved⟩ | ⟨none, -⟩ := taken.next_cases
    · rw [Lexeme.placedFrom_of_cut? found] at lexemes
      obtain ⟨rfl, others⟩ := List.cons.inj lexemes
      have first : s.ahead = _ := itemsFrom_of_cut? found (s.consumed + 1)
      obtain ⟨state, scan, ahead, -, position, -⟩ := next_of_ahead_eq_cons first
      have scanned : s.next.state = state := by rw [scan]
      have rest : s.next.state.rest = cut.rest := by rw [next, found]
      have offset : utf8Length (front ++ cut.blanks ++ cut.text) =
          utf8Length front + utf8Length cut.blanks + utf8Length cut.text := by
        rw [utf8Length_append, utf8Length_append]
      have later := induction moved (by rw [offset, rest]; exact others)
      rw [scanned] at place later
      rw [first, ← ahead, later, List.map_cons, Lexeme.Placed.item, ← place, position]
    · rw [Lexeme.placedFrom_of_cut?_eq_none none] at lexemes
      cases lexemes

/-- The items of a line are its lexemes, at the characters of their first bytes. -/
theorem items_eq_map_placed (line : List Char) :
    items line = (Lexeme.placed line).map (Lexeme.Placed.item line) :=
  (Token.Stream.hasTaken_ofLine line).ahead_eq

/-- A lexeme is where its text begins in the line. -/
theorem Lexeme.Placed.At.charPosition_start {line before text after : List Char} {p : Placed}
    (place : p.At line before text after) :
    charPosition line p.start = before.length + 1 := by
  rw [place.start_eq, place.line_eq, charPosition_utf8Length]

/-! ## Answers and positions of scans -/

/-- The answer to a scan of a line, the scans being counted from 0. -/
def scanAnswer (line : List Char) (k : Nat) : Except ReadError Token :=
  ((Token.Stream.ofLine line).scan k).next.answer

/-- The position of the stream after that scan. -/
def scanPosition (line : List Char) (k : Nat) : Nat :=
  ((Token.Stream.ofLine line).scan (k + 1)).position

variable {line : List Char} {j k : Nat}

theorem scanAnswer_eq (line : List Char) (k : Nat) :
    scanAnswer line k = firstAnswer (itemsAhead line k) := by
  have stands := Cursor.onItem_skip_ofLine line k
  exact stands.scanned.symm.trans stands.current

theorem scanPosition_eq (line : List Char) (k : Nat) :
    scanPosition line k = firstPosition (line.length + 1) (itemsAhead line k) := by
  have stands := Cursor.onItem_skip_ofLine line k
  rw [scanPosition, ← stands.stream, ← stands.inStep, stands.position]

theorem itemsAhead_of_getElem? {item : Item} (found : (items line)[k]? = some item) :
    itemsAhead line k = item :: itemsAhead line (k + 1) := by
  obtain ⟨inside, rfl⟩ := List.getElem?_eq_some_iff.1 found
  exact List.drop_eq_getElem_cons inside

/-- As long as there are lexemes a scan answers the next one. -/
theorem scanAnswer_of_placed {p : Lexeme.Placed} (found : (Lexeme.placed line)[k]? = some p) :
    scanAnswer line k = (p.item line).answer ∧
      scanPosition line k = charPosition line p.start := by
  have item : (items line)[k]? = some (p.item line) := by
    rw [items_eq_map_placed, List.getElem?_map, found]
    rfl
  rw [scanAnswer_eq, scanPosition_eq, itemsAhead_of_getElem? item]
  exact ⟨rfl, rfl⟩

/-- Afterwards it finds the end of the line. -/
theorem scanAnswer_of_length_le (used : (Lexeme.placed line).length ≤ k) :
    scanAnswer line k = .ok .endOfInput ∧ scanPosition line k = line.length + 1 := by
  have none : itemsAhead line k = [] := by
    apply List.drop_eq_nil_of_le
    rwa [items_eq_map_placed, List.length_map]
  rw [scanAnswer_eq, scanPosition_eq, none]
  exact ⟨rfl, rfl⟩

/-! ## Later positions -/

theorem pairwise_position_itemsAfter (digit : Bool) (position : Nat) (text : List Char) :
    (itemsAfter digit position text).Pairwise fun a b => a.position < b.position := by
  induction text generalizing digit position with
  | nil => exact .nil
  | cons c rest induction =>
    rw [itemsAfter]
    cases begins : beginning? digit position c rest with
    | none => exact induction c.isDigit (position + 1)
    | some item =>
      refine .cons (fun later membership => ?_) (induction c.isDigit (position + 1))
      rw [position_of_beginning? begins]
      exact (position_of_mem_itemsAfter membership).1

theorem scanPosition_lt_succ (more : k < (Lexeme.placed line).length) :
    scanPosition line k < scanPosition line (k + 1) := by
  rw [← List.length_map (Lexeme.Placed.item line), ← items_eq_map_placed] at more
  have ahead : itemsAhead line k = (items line)[k] :: itemsAhead line (k + 1) :=
    List.drop_eq_getElem_cons more
  have ordered : (itemsAhead line k).Pairwise fun a b => a.position < b.position :=
    (pairwise_position_itemsAfter false 1 line).drop
  rw [ahead] at ordered
  rw [scanPosition_eq, scanPosition_eq, ahead]
  cases later : itemsAhead line (k + 1) with
  | nil =>
    have inside := (position_of_mem_itemsAfter (List.getElem_mem more)).2
    rw [Nat.add_comm] at inside
    exact inside
  | cons next rest =>
    rw [later] at ordered
    exact List.rel_of_pairwise_cons ordered List.mem_cons_self

/-- A later scan is at a later position, until the end of the line is found. -/
theorem scanPosition_lt_scanPosition (before : j < k) (inside : k ≤ (Lexeme.placed line).length) :
    scanPosition line j < scanPosition line k := by
  induction k, before using Nat.le_induction with
  | base => exact scanPosition_lt_succ inside
  | succ k before induction =>
    exact Nat.lt_trans (induction (Nat.le_of_succ_le inside)) (scanPosition_lt_succ inside)

/-! ## Faults -/

/-- The characters that a line may consist of: blanks, digits and the operators. -/
def isLegal (c : Char) : Bool := isBlank c || c.isDigit || ['+', '-', '*', '/'].contains c

/-- The faults at the characters of a text that are not legal, in order; the first
character is at a position. -/
def illegalFaults (position : Nat) : List Char → List ReadError
  | [] => []
  | c :: rest =>
    if isLegal c then illegalFaults (position + 1) rest
    else .invalidCharacter c position :: illegalFaults (position + 1) rest

/-- The fault that an answer is, if it is one. -/
def faultOf? : Except ReadError Token → Option ReadError
  | .ok _ => none
  | .error error => some error

/-- The faults of the first `n` scans of a line. -/
def scannedFaults (line : List Char) (n : Nat) : List ReadError :=
  (List.range n).filterMap fun k => faultOf? (scanAnswer line k)

theorem faultOf?_single {c : Char} (noDigit : c.isDigit = false) (noBlank : isBlank c = false)
    (position : Nat) :
    faultOf? (Item.answer ⟨.single c, position⟩) =
      if isLegal c then none else some (.invalidCharacter c position) := by
  have legal : isLegal c = ['+', '-', '*', '/'].contains c := by
    rw [isLegal, noBlank, noDigit, Bool.false_or, Bool.false_or]
  rw [legal]
  unfold Lexeme.single
  split
  next => rfl
  next => rfl
  next => rfl
  next => rfl
  next noAdd noSub noMul noDiv =>
    have absent : ['+', '-', '*', '/'].contains c = false := by
      simp only [List.contains_cons, List.contains_nil, Bool.or_eq_false_iff, beq_eq_false_iff_ne]
      exact ⟨noAdd, noSub, noMul, noDiv, trivial⟩
    rw [absent]
    rfl

/-- A character is at fault just if it is not legal. -/
theorem filterMap_beginning? (digit : Bool) (position : Nat) (c : Char) (rest : List Char) :
    (beginning? digit position c rest).toList.filterMap (fun item => faultOf? item.answer) =
      (if isLegal c then none else some (ReadError.invalidCharacter c position)).toList := by
  cases isDigit : c.isDigit with
  | true =>
    have legal : isLegal c = true := by rw [isLegal, isDigit, Bool.or_true, Bool.true_or]
    rw [beginning?, isDigit, legal]
    cases digit <;> rfl
  | false =>
    cases blank : isBlank c with
    | true =>
      have legal : isLegal c = true := by rw [isLegal, blank, Bool.true_or, Bool.true_or]
      simp [beginning?, isDigit, blank, legal]
    | false =>
      have begins : beginning? digit position c rest = some ⟨.single c, position⟩ := by
        simp [beginning?, isDigit, blank]
      rw [begins, Option.toList_some, List.filterMap_cons, faultOf?_single isDigit blank,
        List.filterMap_nil]
      cases isLegal c <;> rfl

theorem filterMap_itemsAfter (digit : Bool) (position : Nat) (text : List Char) :
    (itemsAfter digit position text).filterMap (fun item => faultOf? item.answer) =
      illegalFaults position text := by
  induction text generalizing digit position with
  | nil => rfl
  | cons c rest induction =>
    rw [itemsAfter, List.filterMap_append, filterMap_beginning?, induction, illegalFaults]
    split <;> rfl

/-- The faults of all scans are the faults of the items. -/
theorem filterMap_range_firstAnswer {items : List Item} {n : Nat} (enough : items.length ≤ n) :
    ((List.range n).filterMap fun k => faultOf? (firstAnswer (items.drop k))) =
      items.filterMap fun item => faultOf? item.answer := by
  induction items generalizing n with
  | nil =>
    rw [List.filterMap_nil, List.filterMap_eq_nil_iff]
    intro k _
    rw [List.drop_nil]
    rfl
  | cons item rest induction =>
    obtain ⟨m, rfl⟩ := Nat.exists_eq_add_of_le' (Nat.lt_of_lt_of_le (Nat.succ_pos _) enough)
    have later := induction (Nat.le_of_succ_le_succ enough)
    rw [List.range_succ_eq_map, List.filterMap_cons, List.filterMap_map, List.filterMap_cons,
      ← later]
    rfl

/-- Scanning a line to its end meets every character that is not legal, once and in order. -/
theorem scannedFaults_eq {n : Nat} (enough : (Lexeme.placed line).length ≤ n) :
    scannedFaults line n = illegalFaults 1 line := by
  have length : (items line).length ≤ n := by rwa [items_eq_map_placed, List.length_map]
  rw [scannedFaults, ← filterMap_itemsAfter false 1 line]
  simp only [scanAnswer_eq]
  exact filterMap_range_firstAnswer length

/-- The scans of a line answer its lexemes in order, each at the position of its first
character: an integer with its value, an operator as that operator, and a character that starts
no token with a fault that names it.  The positions grow.  After the last lexeme every scan finds
the end of the line.  All characters that start no token are met, once each. -/
theorem scans_of_placed (line : List Char) :
    (∀ k p, (Lexeme.placed line)[k]? = some p →
      ∃ before c text after, p.At line before (c :: text) after ∧
        (∀ n, p.lexeme = .integer n → scanAnswer line k = .ok (.integer n)) ∧
        (∀ op, p.lexeme = .operator op → scanAnswer line k = .ok (.operator op)) ∧
        (∀ character, p.lexeme = .invalid character →
          scanAnswer line k = .error (.invalidCharacter character (before.length + 1)) ∧
            character = c ∧ text = []) ∧
        scanPosition line k = before.length + 1 ∧
        scanPosition line k = charPosition line p.start ∧
        characterAt? line (scanPosition line k) = some c) ∧
    (∀ k, (Lexeme.placed line).length ≤ k →
      scanAnswer line k = .ok .endOfInput ∧ scanPosition line k = line.length + 1) ∧
    (∀ j k, j < k → k ≤ (Lexeme.placed line).length →
      scanPosition line j < scanPosition line k) ∧
    ∀ n, (Lexeme.placed line).length ≤ n → scannedFaults line n = illegalFaults 1 line := by
  refine ⟨fun k p found => ?_, fun k => scanAnswer_of_length_le, fun j k =>
    scanPosition_lt_scanPosition, fun n => scannedFaults_eq⟩
  obtain ⟨before, text, after, place⟩ :=
    (Lexeme.lexing_placed line).pieces p (List.mem_of_getElem? found)
  obtain ⟨answer, position⟩ := scanAnswer_of_placed found
  have start := place.charPosition_start
  rw [Lexeme.Placed.item, start] at answer
  obtain ⟨c, text, rfl⟩ := List.exists_cons_of_ne_nil place.stands.ne_nil
  refine ⟨before, c, text, after, place, ?_, ?_, ?_, start ▸ position, position, ?_⟩
  · intro n integer
    rw [answer, integer, Item.answer]
  · intro op operator
    rw [answer, operator, Item.answer]
  · intro character invalid
    have stands := place.stands
    rw [invalid] at stands
    cases stands
    rw [answer, invalid, Item.answer]
    exact ⟨rfl, rfl, rfl⟩
  · rw [position, start, place.line_eq]
    exact characterAt?_append_cons before (text ++ after) c

end LineCalc
