import LineCalc.Proofs.Agreement
import LineCalc.Proofs.ScannedLexemes

/-!
# Legal lines

A line has tokens just if all of its characters are legal, that is blanks, digits or
operators.  Its tokens are then its lexemes in order with the end of the line after them,
and otherwise the first character that is not legal is at fault (`tokenize_legal`).

Both follow from the faults of the items: listing tokens stops at the first of them
(`tokensOf_of_faults_eq_cons`) and goes through to the end if there is none
(`exists_tokensOf_of_faults_eq_nil`).  Every scan before the last one takes a lexeme, so
there are no more scans than characters, and one (`exists_drained`).
-/

namespace LineCalc

/-! ## Characters -/

theorem isLegal_eq_false_of_not_ascii {c : Char} (high : 128 ≤ c.toNat)
    (noBlank : isBlank c = false) : isLegal c = false := by
  have noDigit : c.isDigit = false := by
    rw [Bool.eq_false_iff]
    intro digit
    have upper : c.toNat ≤ 57 := (Char.isDigit_iff_toNat.1 digit).2
    omega
  have noOperator : ['+', '-', '*', '/'].contains c = false := by
    rw [Bool.eq_false_iff]
    intro member
    simp only [List.contains_cons, List.contains_nil, Bool.or_eq_true, beq_iff_eq,
      Bool.false_eq_true, or_false] at member
    rcases member with rfl | rfl | rfl | rfl <;> exact absurd high (by decide)
  rw [isLegal, noBlank, noDigit, noOperator]
  rfl

theorem illegalFaults_eq_nil_iff (position : Nat) {text : List Char} :
    illegalFaults position text = [] ↔ ∀ c ∈ text, isLegal c = true := by
  induction text generalizing position with
  | nil => exact iff_of_true rfl (List.forall_mem_nil _)
  | cons c rest induction =>
    rw [List.forall_mem_cons, ← induction (position + 1), illegalFaults]
    cases isLegal c <;> simp

/-- Legal characters are passed over. -/
theorem illegalFaults_append_cons (position : Nat) {front back : List Char} {c : Char}
    (legal : ∀ d ∈ front, isLegal d = true) (illegal : isLegal c = false) :
    illegalFaults position (front ++ c :: back) =
      .invalidCharacter c (position + front.length) ::
        illegalFaults (position + front.length + 1) back := by
  induction front generalizing position with
  | nil =>
    rw [List.nil_append, illegalFaults, illegal]
    rfl
  | cons first front induction =>
    obtain ⟨passed, others⟩ := List.forall_mem_cons.1 legal
    have later := induction (position + 1) others
    rw [List.cons_append, illegalFaults, if_pos passed, later, List.length_cons]
    congr 2 <;> omega

/-- A text that is not legal throughout has a first character that is not. -/
theorem exists_first_illegal {text : List Char} (illegal : ¬∀ c ∈ text, isLegal c = true) :
    ∃ front c back, text = front ++ c :: back ∧ (∀ d ∈ front, isLegal d = true) ∧
      isLegal c = false := by
  induction text with
  | nil => exact absurd (List.forall_mem_nil _) illegal
  | cons first rest induction =>
    cases legal : isLegal first with
    | false => exact ⟨[], first, rest, rfl, List.forall_mem_nil _, legal⟩
    | true =>
      rw [List.forall_mem_cons, not_and] at illegal
      obtain ⟨front, c, back, rfl, all, none⟩ := induction (illegal legal)
      exact ⟨first :: front, c, back, rfl, List.forall_mem_cons.2 ⟨legal, all⟩, none⟩

/-! ## Tokens of items -/

theorem tokensOf_of_faults_eq_cons {items : List Item} {error : ReadError}
    {errors : List ReadError}
    (faults : items.filterMap (fun item => faultOf? item.answer) = error :: errors) :
    tokensOf items = .error error := by
  induction items with
  | nil => cases faults
  | cons item rest induction =>
    rw [List.filterMap_cons] at faults
    rw [tokensOf]
    cases found : item.answer with
    | error fault =>
      rw [found] at faults
      cases faults
      rfl
    | ok token =>
      rw [found] at faults
      dsimp only
      rw [induction faults]
      rfl

/-- Items without a fault are tokens, one each. -/
theorem exists_tokensOf_of_faults_eq_nil {items : List Item}
    (faults : items.filterMap (fun item => faultOf? item.answer) = []) :
    ∃ written, tokensOf items = .ok (written ++ [.endOfInput]) ∧
      written.map Token.lexeme? = items.map fun item => some item.lexeme := by
  induction items with
  | nil => exact ⟨[], rfl, rfl⟩
  | cons item rest induction =>
    rw [List.filterMap_cons] at faults
    cases found : item.answer with
    | error fault =>
      rw [found] at faults
      cases faults
    | ok token =>
      rw [found] at faults
      obtain ⟨written, later, lexemes⟩ := induction faults
      refine ⟨token :: written, tokensOf_cons_of_answer found later, ?_⟩
      rw [List.map_cons, List.map_cons, lexemes, Item.lexeme?_of_answer found]

theorem endOfInput_not_mem {written : List Token} {lexemes : List Lexeme}
    (each : written.map Token.lexeme? = lexemes.map some) : Token.endOfInput ∉ written := by
  intro membership
  have none : Token.lexeme? .endOfInput ∈ lexemes.map some :=
    each ▸ List.mem_map_of_mem membership
  obtain ⟨lexeme, -, same⟩ := List.mem_map.1 none
  cases same

/-! ## Lines -/

/-- The tokens of a line of legal characters are its lexemes. -/
theorem exists_tokenize_of_legal {line : List Char} (legal : ∀ c ∈ line, isLegal c = true) :
    ∃ written, tokenize line = .ok (written ++ [.endOfInput]) ∧
      written.map Token.lexeme? = (Lexeme.placed line).map fun p => some p.lexeme := by
  have faults := filterMap_itemsAfter false 1 line
  rw [(illegalFaults_eq_nil_iff 1).2 legal] at faults
  obtain ⟨written, listed, lexemes⟩ := exists_tokensOf_of_faults_eq_nil faults
  refine ⟨written, tokenize_eq_ok_iff_tokensOf.2 listed, ?_⟩
  rw [lexemes, ← itemsFrom, ← items, items_eq_map_placed, List.map_map]
  rfl

theorem tokenize_of_illegal {front back : List Char} {c : Char}
    (legal : ∀ d ∈ front, isLegal d = true) (illegal : isLegal c = false) :
    tokenize (front ++ c :: back) =
      .error (.read (.invalidCharacter c (front.length + 1))) := by
  have faults := filterMap_itemsAfter false 1 (front ++ c :: back)
  rw [illegalFaults_append_cons 1 legal illegal] at faults
  rw [tokenize_eq_tokensOf, items, itemsFrom, tokensOf_of_faults_eq_cons faults, Nat.add_comm]
  rfl

theorem legal_of_tokenize {line : List Char} {tokens : List Token}
    (listed : tokenize line = .ok tokens) : ∀ c ∈ line, isLegal c = true := by
  by_contra illegal
  obtain ⟨front, c, back, rfl, legal, none⟩ := exists_first_illegal illegal
  rw [tokenize_of_illegal legal none] at listed
  cases listed

/-! ## The number of scans -/

theorem length_itemsAfter_le (digit : Bool) (position : Nat) (text : List Char) :
    (itemsAfter digit position text).length ≤ text.length := by
  induction text generalizing digit position with
  | nil => exact Nat.le_refl 0
  | cons c rest induction =>
    have later := induction c.isDigit (position + 1)
    have single : (beginning? digit position c rest).toList.length ≤ 1 := by
      cases beginning? digit position c rest <;> simp
    rw [itemsAfter, List.length_append, List.length_cons]
    omega

/-- The first `k` scans of items answer `written`, and one more scan ends the listing. -/
structure Drains (items : List Item) (k : Nat) (written : List Token) : Prop where
  answers : written.map .ok = (List.range k).map fun j => firstAnswer (items.drop j)
  goesOn : Token.endOfInput ∉ written
  stops : firstAnswer (items.drop k) = .ok .endOfInput ∧
      tokensOf items = .ok (written ++ [.endOfInput]) ∨
    ∃ error, firstAnswer (items.drop k) = .error error ∧ tokensOf items = .error error

theorem exists_drains (items : List Item) : ∃ k written, k ≤ items.length ∧
    Drains items k written := by
  induction items with
  | nil => exact ⟨0, [], Nat.le_refl 0, rfl, List.not_mem_nil, .inl ⟨rfl, rfl⟩⟩
  | cons item rest induction =>
    cases found : item.answer with
    | error error =>
      have failed : tokensOf (item :: rest) = .error error := by rw [tokensOf, found]
      exact ⟨0, [], Nat.zero_le _, rfl, List.not_mem_nil, .inr ⟨error, found, failed⟩⟩
    | ok token =>
      obtain ⟨k, written, inside, answers, goesOn, stops⟩ := induction
      have inner : Token.endOfInput ≠ token := by
        rintro rfl
        exact item.answer_ne_endOfInput found
      refine ⟨k + 1, token :: written, Nat.succ_le_succ inside, ?_,
        List.not_mem_cons_of_ne_of_not_mem inner goesOn, ?_⟩
      · rw [List.range_succ_eq_map, List.map_cons, List.map_cons, List.map_map, answers,
          ← found]
        rfl
      · rcases stops with ⟨last, listed⟩ | ⟨error, last, failed⟩
        · exact .inl ⟨last, tokensOf_cons_of_answer found listed⟩
        · refine .inr ⟨error, last, ?_⟩
          rw [tokensOf, found]
          dsimp only
          rw [failed]
          rfl

/-- Listing the tokens of a line stops after some scans, at most one more than there are
characters: all but the last of them answer tokens other than the end of the line. -/
theorem exists_drained (line : List Char) :
    ∃ k ≤ line.length, ∃ written : List Token,
      written.map .ok = (List.range k).map (scanAnswer line) ∧ .endOfInput ∉ written ∧
        (scanAnswer line k = .ok .endOfInput ∧
            tokenize line = .ok (written ++ [.endOfInput]) ∨
          ∃ error, scanAnswer line k = .error error ∧ tokenize line = .error (.read error)) := by
  obtain ⟨k, written, inside, answers, goesOn, stops⟩ := exists_drains (items line)
  refine ⟨k, Nat.le_trans inside (length_itemsAfter_le false 1 line), written, ?_, goesOn, ?_⟩
  · rw [answers]
    exact List.map_congr_left fun j _ => (scanAnswer_eq line j).symm
  · rw [scanAnswer_eq, itemsAhead, tokenize_eq_tokensOf]
    rcases stops with ⟨last, listed⟩ | ⟨error, last, failed⟩
    · refine .inl ⟨last, ?_⟩
      rw [listed]
      rfl
    · refine .inr ⟨error, last, ?_⟩
      rw [failed]
      rfl

/-- A line has tokens just if it consists of blanks, ASCII digits and operators; they are its
lexemes in order and the end of the line, which occurs nowhere else.  Otherwise the first
other character is at fault, and those are all characters outside ASCII that are no blanks.
At most one scan more than there are characters is made. -/
theorem tokenize_legal (line : List Char) :
    ((∃ tokens, tokenize line = .ok tokens) ↔ ∀ c ∈ line, isLegal c = true) ∧
    (∀ tokens, tokenize line = .ok tokens → ∃ written lexemes,
      tokens = written ++ [.endOfInput] ∧ .endOfInput ∉ written ∧
        Lexeme.Lexing line lexemes ∧
        written.map Token.lexeme? = lexemes.map fun p => some p.lexeme) ∧
    (∀ error, tokenize line = .error error ↔ ∃ front c back, line = front ++ c :: back ∧
      (∀ d ∈ front, isLegal d = true) ∧ isLegal c = false ∧
        error = .read (.invalidCharacter c (front.length + 1))) ∧
    (∃ k ≤ line.length, ∃ written : List Token,
      written.map .ok = (List.range k).map (scanAnswer line) ∧ .endOfInput ∉ written ∧
        (scanAnswer line k = .ok .endOfInput ∧
            tokenize line = .ok (written ++ [.endOfInput]) ∨
          ∃ error, scanAnswer line k = .error error ∧ tokenize line = .error (.read error))) ∧
    (∀ c : Char, 128 ≤ c.toNat → isBlank c = false → isLegal c = false) ∧
    isLegal '\u200B' = false ∧ isLegal '\uFEFF' = false ∧ isLegal '\u0663' = false ∧
    isLegal '\uFF13' = false := by
  refine ⟨⟨fun ⟨tokens, listed⟩ => legal_of_tokenize listed, fun legal => ?_⟩, ?_, ?_,
    exists_drained line, fun c => isLegal_eq_false_of_not_ascii, by decide,
    by decide, by decide, by decide⟩
  · obtain ⟨written, listed, -⟩ := exists_tokenize_of_legal legal
    exact ⟨_, listed⟩
  · intro tokens listed
    obtain ⟨written, same, lexemes⟩ := exists_tokenize_of_legal (legal_of_tokenize listed)
    cases listed.symm.trans same
    refine ⟨written, _, rfl, ?_, Lexeme.lexing_placed line, lexemes⟩
    exact endOfInput_not_mem (lexemes.trans (List.map_map (g := some)).symm)
  · intro error
    constructor
    · intro failed
      have illegal : ¬∀ c ∈ line, isLegal c = true := by
        intro legal
        obtain ⟨written, listed, -⟩ := exists_tokenize_of_legal legal
        cases failed.symm.trans listed
      obtain ⟨front, c, back, rfl, legal, none⟩ := exists_first_illegal illegal
      cases failed.symm.trans (tokenize_of_illegal legal none)
      exact ⟨front, c, back, rfl, legal, none, rfl⟩
    · rintro ⟨front, c, back, rfl, legal, none, rfl⟩
      exact tokenize_of_illegal legal none

end LineCalc
