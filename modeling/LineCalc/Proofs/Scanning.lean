import LineCalc.Evaluation
import LineCalc.Proofs.Items

/-!
# Streams and items

A stream is *ahead* of the items that it has not scanned yet.  One scan takes the
first of them and answers it, or the end of the line if there is none
(`next_of_ahead_eq_cons`, `next_of_ahead_eq_nil`).  So the tokens of a line are
those of its items, up to the first that is none (`tokenize_eq_tokensOf`).
-/

namespace LineCalc

/-- The token of an item, or the fault that it is. -/
def Item.answer : Item → Except ReadError Token
  | ⟨.integer n, _⟩ => .ok (.integer n)
  | ⟨.operator op, _⟩ => .ok (.operator op)
  | ⟨.invalid c, position⟩ => .error (.invalidCharacter c position)

theorem Lexeme.toToken_eq_answer (lexeme : Lexeme) (position : Nat) :
    lexeme.toToken position = Item.answer ⟨lexeme, position⟩ := by
  cases lexeme <;> rfl

/-- The tokens of items and the end of the line, or the first fault. -/
def tokensOf : List Item → Except ReadError (List Token)
  | [] => .ok [.endOfInput]
  | item :: rest =>
    match item.answer with
    | .error error => .error error
    | .ok token => (tokensOf rest).map (token :: ·)

theorem tokensOf_cons_of_answer {item : Item} {token : Token} (found : item.answer = .ok token)
    {rest : List Item} {tokens : List Token} (later : tokensOf rest = .ok tokens) :
    tokensOf (item :: rest) = .ok (token :: tokens) := by
  rw [tokensOf, found, later]
  rfl

/-- Tokens of several items are the token of the first and those of the others. -/
theorem exists_of_tokensOf_cons {item : Item} {rest : List Item} {tokens : List Token}
    (listed : tokensOf (item :: rest) = .ok tokens) :
    ∃ token others, item.answer = .ok token ∧ tokensOf rest = .ok others ∧
      tokens = token :: others := by
  rw [tokensOf] at listed
  cases first : item.answer with
  | error error => rw [first] at listed; cases listed
  | ok token =>
    rw [first] at listed
    cases later : tokensOf rest with
    | error error => rw [later] at listed; cases listed
    | ok others =>
      rw [later] at listed
      cases listed
      exact ⟨token, others, rfl, rfl, rfl⟩

theorem Item.answer_ne_endOfInput (item : Item) : item.answer ≠ .ok .endOfInput := by
  obtain ⟨lexeme, position⟩ := item
  cases lexeme <;> intro same <;> cases same

namespace Token.Stream

/-- The items that a stream has not scanned yet. -/
def ahead (s : Stream) : List Item := itemsFrom (s.consumed + 1) s.rest

/-- The position of the end of the line. -/
def stop (s : Stream) : Nat := s.consumed + s.rest.length + 1

@[simp] theorem ahead_ofLine (line : List Char) : (ofLine line).ahead = items line := rfl

@[simp] theorem stop_ofLine (line : List Char) : (ofLine line).stop = line.length + 1 := by
  simp [ofLine, stop]

/-- Where no item is left, a scan finds the end of the line. -/
theorem next_of_ahead_eq_nil {s : Stream} (none : s.ahead = []) :
    s.next = ⟨.ok .endOfInput, ⟨[], s.consumed + s.rest.length, s.stop, true⟩,
      if s.ended then [] else [.endOfInput s.stop]⟩ := by
  cases found : Lexeme.cut? s.rest with
  | none => rw [next, found]; rfl
  | some cut =>
    rw [ahead, itemsFrom_of_cut? found] at none
    cases none

/-- Otherwise it answers the first item and leaves the others. -/
theorem next_of_ahead_eq_cons {s : Stream} {item : Item} {rest : List Item}
    (first : s.ahead = item :: rest) :
    ∃ state, s.next = ⟨item.answer, state, scanEvents item.position item.answer⟩ ∧
      state.ahead = rest ∧ state.stop = s.stop ∧ state.position = item.position ∧
      state.ended = s.ended := by
  cases found : Lexeme.cut? s.rest with
  | none =>
    rw [ahead, itemsFrom_of_cut?_eq_none found] at first
    cases first
  | some cut =>
    rw [ahead, itemsFrom_of_cut? found] at first
    obtain ⟨rfl, rfl⟩ := List.cons.inj first
    have place : s.consumed + cut.blanks.length + 1 = s.consumed + 1 + cut.blanks.length := by
      omega
    have length := congrArg List.length (Lexeme.append_of_cut? found)
    simp only [List.length_append] at length
    refine ⟨s.next.state, ?_, ?_, ?_, ?_, ?_⟩
    · rw [next, found]
      simp only [Lexeme.toToken_eq_answer, place]
    · rw [next, found, ahead]
      simp only
      congr 1
      omega
    · rw [next, found, stop, stop]
      simp only
      omega
    · rw [next, found]
      exact place
    · rw [next, found]

/-- Draining a stream lists the tokens of the items ahead of it. -/
theorem drain_answer (s : Stream) : s.drain.answer = tokensOf s.ahead := by
  generalize same : s.ahead = ahead
  induction ahead generalizing s with
  | nil =>
    have scan := next_of_ahead_eq_nil same
    rw [drain]
    dsimp only
    split
    next error failed =>
      rw [scan] at failed
      cases failed
    next token found =>
      rw [scan] at found
      cases found
      rfl
  | cons item rest induction =>
    obtain ⟨state, scan, later, -⟩ := next_of_ahead_eq_cons same
    have answer : s.next.answer = item.answer := by rw [scan]
    rw [drain, tokensOf]
    dsimp only
    split
    next error failed =>
      rw [answer] at failed
      simp only [failed]
    next token found =>
      rw [answer] at found
      have inner : token ≠ .endOfInput := by
        rintro rfl
        exact item.answer_ne_endOfInput found
      rw [if_neg inner, scan]
      simp only [found, induction state later]

end Token.Stream

/-- The tokens of a line are those of its items. -/
theorem tokenize_eq_tokensOf (line : List Char) :
    tokenize line = (tokensOf (items line)).mapError .read := by
  rw [tokenize, tokenizeLogged, Token.Stream.drain_answer, Token.Stream.ahead_ofLine]

theorem tokenize_eq_ok_iff_tokensOf {line : List Char} {tokens : List Token} :
    tokenize line = .ok tokens ↔ tokensOf (items line) = .ok tokens := by
  rw [tokenize_eq_tokensOf]
  cases tokensOf (items line) with
  | error error => exact ⟨(nomatch ·), (nomatch ·)⟩
  | ok others =>
    constructor
    · intro same
      cases same
      rfl
    · intro same
      cases same
      rfl

end LineCalc
