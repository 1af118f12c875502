import LineCalc.Proofs.Items

/-!
# The one way to cut a line

`Lexing` says what the lexemes of a line are without saying how to find them.  Each has
a piece of the line for its text, and its offsets are where the piece begins and ends
in bytes; a run of digits has no digit next to it; the pieces stand in order and apart;
and a byte is outside of all of them just when it belongs to a blank.

The lexemes that are cut off a line one after the other are such a list
(`lexing_placed`), and there is no other: two pieces that share a byte begin and end
together (`Placed.At.eq_of_overlap`), and every character that is no blank is in some
piece of either list (`Lexing.unique`).
-/

namespace LineCalc

namespace Lexeme

/-! ## Pieces of a line -/

/-- A piece of a line between the texts `before` and `after` that is a lexeme. -/
inductive Stands (before after : List Char) : List Char → Lexeme → Prop where
  | integer {digits : List Char} (nonempty : digits ≠ [])
      (all : ∀ c ∈ digits, c.isDigit = true) (begins : digitAfter false before = false)
      (ends : startsWithDigit after = false) :
      Stands before after digits (.integer (decimalValue digits))
  | operator (op : Operator) : Stands before after [op.symbol] (.operator op)
  | invalid {c : Char} (noBlank : isBlank c = false) (noDigit : c.isDigit = false)
      (noOperator : ∀ op : Operator, op.symbol ≠ c) : Stands before after [c] (.invalid c)

/-- The piece of a line that a lexeme with its place stands for. -/
structure Placed.At (line : List Char) (p : Placed) (before text after : List Char) : Prop where
  line_eq : line = before ++ (text ++ after)
  stands : Stands before after text p.lexeme
  start_eq : p.start = utf8Length before
  stop_eq : p.stop = utf8Length before + utf8Length text

/-- The byte at an offset is in one of the lexemes. -/
def Covered (lexemes : List Placed) (offset : Nat) : Prop :=
  ∃ p ∈ lexemes, p.start ≤ offset ∧ offset < p.stop

/-- What it is to be the lexemes of a line. -/
structure Lexing (line : List Char) (lexemes : List Placed) : Prop where
  /-- Every lexeme is a piece of the line. -/
  pieces : ∀ p ∈ lexemes, ∃ before text after, p.At line before text after
  /-- None is empty. -/
  nonempty : ∀ p ∈ lexemes, p.start < p.stop
  /-- They do not overlap and stand in order. -/
  ordered : lexemes.Pairwise fun p q => p.stop ≤ q.start
  /-- The bytes of a character are in lexemes, all of them, unless it is a blank. -/
  covered : ∀ before c after, line = before ++ c :: after → ∀ offset,
    utf8Length before ≤ offset → offset < utf8Length before + c.utf8Size →
      (Covered lexemes offset ↔ isBlank c = false)

/-! ## Two pieces that share a byte -/

theorem utf8Length_pos {text : List Char} (nonempty : text ≠ []) : 0 < utf8Length text := by
  cases text with
  | nil => exact absurd rfl nonempty
  | cons c rest =>
    have := c.utf8Size_pos
    rw [utf8Length]
    omega

theorem isDigit_symbol (op : Operator) : op.symbol.isDigit = false := by cases op <;> rfl

theorem isBlank_symbol (op : Operator) : isBlank op.symbol = false := by cases op <;> decide

variable {before after text : List Char} {lexeme : Lexeme}

theorem Stands.ne_nil (stands : Stands before after text lexeme) : text ≠ [] := by
  cases stands with
  | integer nonempty => exact nonempty
  | operator op => exact List.cons_ne_nil _ _
  | invalid => exact List.cons_ne_nil _ _

theorem Stands.not_isBlank (stands : Stands before after text lexeme) :
    ∀ c ∈ text, isBlank c = false := by
  intro c membership
  cases stands with
  | integer nonempty all => exact isBlank_eq_false_of_isDigit (all c membership)
  | operator op =>
    obtain rfl := List.mem_singleton.1 membership
    exact isBlank_symbol op
  | invalid noBlank =>
    obtain rfl := List.mem_singleton.1 membership
    exact noBlank

/-- A lexeme that has a digit is a whole run of digits. -/
theorem Stands.run_of_isDigit (stands : Stands before after text lexeme) {c : Char}
    (membership : c ∈ text) (digit : c.isDigit = true) :
    (∀ d ∈ text, d.isDigit = true) ∧ digitAfter false before = false ∧
      startsWithDigit after = false := by
  cases stands with
  | integer nonempty all begins ends => exact ⟨all, begins, ends⟩
  | operator op =>
    obtain rfl := List.mem_singleton.1 membership
    rw [isDigit_symbol] at digit
    cases digit
  | invalid noBlank noDigit =>
    obtain rfl := List.mem_singleton.1 membership
    rw [noDigit] at digit
    cases digit

/-- A lexeme of two characters or more is a run of digits. -/
theorem Stands.isDigit_of_append {front back : List Char}
    (stands : Stands before after (front ++ back) lexeme) (some_front : front ≠ [])
    (some_back : back ≠ []) : ∀ c ∈ front ++ back, c.isDigit = true := by
  generalize same : front ++ back = whole at stands
  have long : 2 ≤ whole.length := by
    have := List.length_pos_iff.2 some_front
    have := List.length_pos_iff.2 some_back
    rw [← same, List.length_append]
    omega
  cases stands with
  | integer nonempty all => exact all
  | operator op => exact absurd long (by simp)
  | invalid => exact absurd long (by simp)

theorem ofChar_symbol (op : Operator) : ofChar op.symbol = .operator op := by
  rw [ofChar, Operator.ofChar?_symbol]

theorem ofChar_eq_invalid {c : Char} (noOperator : ∀ op : Operator, op.symbol ≠ c) :
    ofChar c = .invalid c := by
  rw [ofChar]
  cases found : Operator.ofChar? c with
  | none => rfl
  | some op => exact absurd (Operator.symbol_of_ofChar? found) (noOperator op)

theorem Stands.eq_integer (stands : Stands before after text lexeme)
    (all : ∀ c ∈ text, c.isDigit = true) : lexeme = .integer (decimalValue text) := by
  cases stands with
  | integer => rfl
  | operator op => exact absurd (all _ List.mem_cons_self) (by simp [isDigit_symbol])
  | invalid noBlank noDigit => exact absurd (all _ List.mem_cons_self) (by simp [noDigit])

theorem Stands.eq_ofChar {c : Char} (stands : Stands before after [c] lexeme)
    (noDigit : c.isDigit = false) : lexeme = ofChar c := by
  generalize same : [c] = text at stands
  cases stands with
  | integer nonempty all =>
    subst same
    rw [all c List.mem_cons_self] at noDigit
    cases noDigit
  | operator op =>
    obtain rfl := (List.cons.inj same).1
    exact (ofChar_symbol op).symm
  | invalid noBlank noDigit noOperator =>
    obtain rfl := (List.cons.inj same).1
    exact (ofChar_eq_invalid noOperator).symm

/-- The text of a lexeme tells which one it is. -/
theorem Stands.lexeme_eq {other : Lexeme} (first : Stands before after text lexeme)
    (second : Stands before after text other) : lexeme = other := by
  cases first with
  | integer nonempty all => exact (second.eq_integer all).symm
  | operator op => rw [second.eq_ofChar (isDigit_symbol op), ofChar_symbol]
  | invalid noBlank noDigit noOperator =>
    rw [second.eq_ofChar noDigit, ofChar_eq_invalid noOperator]

/-- A text of characters that are all digits, or all none, ends in such a one. -/
theorem digitAfter_append_of_forall {middle : List Char} {digit : Bool}
    (nonempty : middle ≠ []) (all : ∀ c ∈ middle, c.isDigit = digit) (front : List Char) :
    digitAfter false (front ++ middle) = digit := by
  obtain ⟨last, found⟩ := Option.isSome_iff_exists.1 (List.getLast?_isSome.2 nonempty)
  rw [digitAfter, List.getLast?_append, found, ← all last (List.mem_of_getLast? found)]
  rfl

/-- Two lexemes that share a character begin together. -/
theorem Stands.eq_nil_of_before {front middle after₁ after₂ text₁ text₂ : List Char}
    {lexeme₁ lexeme₂ : Lexeme} (first : Stands front after₁ text₁ lexeme₁)
    (second : Stands (front ++ middle) after₂ text₂ lexeme₂)
    (same : text₁ ++ after₁ = middle ++ (text₂ ++ after₂))
    (shared : utf8Length middle < utf8Length text₁) : middle = [] := by
  rcases List.append_eq_append_iff.1 same with ⟨extra, rfl, -⟩ | ⟨others, rfl, rest⟩
  · rw [utf8Length_append] at shared
    omega
  · refine Decidable.byContradiction fun some_middle => ?_
    have some_others : others ≠ [] := by
      rintro rfl
      rw [List.append_nil] at shared
      exact Nat.lt_irrefl _ shared
    have digits := first.isDigit_of_append some_middle some_others
    -- The second lexeme begins with a digit of the first, so no digit may stand before it.
    obtain ⟨c, others, rfl⟩ := List.exists_cons_of_ne_nil some_others
    obtain ⟨d, text₂, rfl⟩ := List.exists_cons_of_ne_nil second.ne_nil
    obtain ⟨rfl, -⟩ := List.cons.inj rest
    have digit := digits d (by simp)
    obtain ⟨-, begins, -⟩ := second.run_of_isDigit List.mem_cons_self digit
    have ends := digitAfter_append_of_forall some_middle
      (fun c membership => digits c (List.mem_append_left _ membership)) front
    rw [ends] at begins
    cases begins

/-- A lexeme does not go on where another with the same beginning ends. -/
theorem Stands.eq_nil_of_after {front middle after text : List Char} {lexeme₁ lexeme₂ : Lexeme}
    (first : Stands front (middle ++ after) text lexeme₁)
    (second : Stands front after (text ++ middle) lexeme₂) : middle = [] := by
  refine Decidable.byContradiction fun some_middle => ?_
  have digits := second.isDigit_of_append first.ne_nil some_middle
  obtain ⟨c, text, rfl⟩ := List.exists_cons_of_ne_nil first.ne_nil
  obtain ⟨d, middle, rfl⟩ := List.exists_cons_of_ne_nil some_middle
  obtain ⟨-, -, ends⟩ := first.run_of_isDigit List.mem_cons_self (digits c (by simp))
  have digit := digits d (by simp)
  rw [List.cons_append, startsWithDigit_cons, digit] at ends
  cases ends

theorem Stands.text_eq {front after₁ after₂ text₁ text₂ : List Char} {lexeme₁ lexeme₂ : Lexeme}
    (first : Stands front after₁ text₁ lexeme₁) (second : Stands front after₂ text₂ lexeme₂)
    (same : text₁ ++ after₁ = text₂ ++ after₂) : text₁ = text₂ ∧ after₁ = after₂ := by
  rcases List.append_eq_append_iff.1 same with ⟨middle, rfl, rfl⟩ | ⟨middle, rfl, rfl⟩
  · obtain rfl := first.eq_nil_of_after second
    simp
  · obtain rfl := second.eq_nil_of_after first
    simp

variable {line : List Char} {p q : Placed}

theorem Placed.ext (lexemes : p.lexeme = q.lexeme) (starts : p.start = q.start)
    (stops : p.stop = q.stop) : p = q := by
  cases p; cases q; simp_all

theorem Placed.At.eq_of_append {front middle after₁ after₂ text₁ text₂ : List Char}
    (first : p.At line front text₁ after₁) (second : q.At line (front ++ middle) text₂ after₂)
    {offset : Nat} (inFirst : offset < p.stop) (inSecond : q.start ≤ offset) : p = q := by
  have whole := first.line_eq.symm.trans second.line_eq
  rw [List.append_assoc] at whole
  have same := List.append_cancel_left whole
  have starts := second.start_eq
  rw [utf8Length_append] at starts
  have stops := first.stop_eq
  obtain rfl := first.stands.eq_nil_of_before second.stands same (by omega)
  rw [List.append_nil] at second
  obtain ⟨rfl, rfl⟩ := first.stands.text_eq second.stands same
  exact Placed.ext (first.stands.lexeme_eq second.stands)
    (first.start_eq.trans second.start_eq.symm) (first.stop_eq.trans second.stop_eq.symm)

/-- Two lexemes of a line that share a byte are the same. -/
theorem Placed.At.eq_of_overlap {before₁ before₂ after₁ after₂ text₁ text₂ : List Char}
    (first : p.At line before₁ text₁ after₁) (second : q.At line before₂ text₂ after₂)
    {offset : Nat} (inFirst : p.start ≤ offset ∧ offset < p.stop)
    (inSecond : q.start ≤ offset ∧ offset < q.stop) : p = q := by
  have whole := first.line_eq.symm.trans second.line_eq
  rcases List.append_eq_append_iff.1 whole with ⟨middle, rfl, -⟩ | ⟨middle, rfl, -⟩
  · exact first.eq_of_append second inFirst.2 inSecond.1
  · exact (second.eq_of_append first inSecond.2 inFirst.1).symm

/-! ## No other way -/

variable {lexemes others : List Placed}

theorem Lexing.mem_of_mem (first : Lexing line lexemes) (second : Lexing line others)
    (membership : p ∈ lexemes) : p ∈ others := by
  obtain ⟨before, text, after, at_p⟩ := first.pieces p membership
  have length := utf8Length_pos at_p.stands.ne_nil
  obtain ⟨c, rest, rfl⟩ := List.exists_cons_of_ne_nil at_p.stands.ne_nil
  have noBlank := at_p.stands.not_isBlank c List.mem_cons_self
  have start := at_p.start_eq
  have stop := at_p.stop_eq
  have size := c.utf8Size_pos
  obtain ⟨q, member, inside⟩ := (second.covered before c (rest ++ after) at_p.line_eq
    (utf8Length before) (Nat.le_refl _) (by omega)).2 noBlank
  obtain ⟨_, _, _, at_q⟩ := second.pieces q member
  obtain rfl := at_p.eq_of_overlap at_q ⟨by omega, by omega⟩ inside
  exact member

theorem Lexing.sorted (lexing : Lexing line lexemes) :
    lexemes.Pairwise fun p q => p.start < q.start := by
  refine lexing.ordered.imp_of_mem fun {p q} membership _ apart => ?_
  have := lexing.nonempty p membership
  omega

/-- A line has one list of lexemes. -/
theorem Lexing.unique (first : Lexing line lexemes) (second : Lexing line others) :
    lexemes = others := by
  have distinct {list : List Placed} (sorted : list.Pairwise fun p q => p.start < q.start) :
      list.Nodup := by
    refine sorted.imp fun before same => ?_
    rw [same] at before
    exact Nat.lt_irrefl _ before
  have same : lexemes.Perm others :=
    (List.perm_ext_iff_of_nodup (distinct first.sorted) (distinct second.sorted)).2 fun p =>
      ⟨first.mem_of_mem second, second.mem_of_mem first⟩
  refine same.eq_of_pairwise (fun p q _ _ before after => ?_) first.sorted second.sorted
  exact absurd before (Nat.lt_asymm after)

/-! ## Cutting off the first lexeme -/

/-- The ways to cut the first lexeme off a line. -/
inductive CutsOff : List Char → Cut → Prop where
  | digits {blanks digits rest : List Char} (blank : ∀ c ∈ blanks, isBlank c = true)
      (nonempty : digits ≠ []) (all : ∀ c ∈ digits, c.isDigit = true)
      (ends : startsWithDigit rest = false) :
      CutsOff (blanks ++ (digits ++ rest)) ⟨blanks, .integer (digitsValue digits), digits, rest⟩
  | single {blanks rest : List Char} {c : Char} (blank : ∀ c ∈ blanks, isBlank c = true)
      (noBlank : isBlank c = false) (noDigit : c.isDigit = false) :
      CutsOff (blanks ++ c :: rest) ⟨blanks, ofChar c, [c], rest⟩

theorem cutsOff_of_cut? {cut : Cut} (found : cut? line = some cut) : CutsOff line cut := by
  have stopped := List.head?_dropWhile_not isBlank line
  have whole : line.takeWhile isBlank ++ line.dropWhile isBlank = line :=
    List.takeWhile_append_dropWhile
  have blank : ∀ c ∈ line.takeWhile isBlank, isBlank c = true :=
    List.all_eq_true.1 List.all_takeWhile
  unfold cut? at found
  split at found
  next => cases found
  next c tail starts =>
    rw [starts] at stopped whole
    split at found <;> cases found
    next digit =>
      have nonempty : (c :: tail).takeWhile Char.isDigit ≠ [] := by simp [digit]
      have cuts := CutsOff.digits blank nonempty (isDigit_of_mem_takeWhile (c :: tail))
        (startsWithDigit_dropWhile (c :: tail))
      rwa [List.takeWhile_append_dropWhile, whole] at cuts
    next noDigit =>
      have cuts : CutsOff (line.takeWhile isBlank ++ c :: tail) _ :=
        .single blank stopped (Bool.eq_false_iff.2 noDigit)
      rwa [whole] at cuts

theorem CutsOff.blank {cut : Cut} (cuts : CutsOff line cut) :
    ∀ c ∈ cut.blanks, isBlank c = true := by
  cases cuts with
  | digits blank => exact blank
  | single blank => exact blank

theorem stands_ofChar {c : Char} (noBlank : isBlank c = false) (noDigit : c.isDigit = false) :
    Stands before after [c] (ofChar c) := by
  rw [ofChar]
  cases spelled : Operator.ofChar? c with
  | some op =>
    obtain rfl := Operator.symbol_of_ofChar? spelled
    exact .operator op
  | none =>
    refine .invalid noBlank noDigit ?_
    rintro op rfl
    rw [Operator.ofChar?_symbol] at spelled
    cases spelled

/-- The lexeme that is cut off a line is a piece of it, also with a text before the line
that does not end within a run of digits. -/
theorem CutsOff.stands {cut : Cut} (cuts : CutsOff line cut) (separate : Separate before line) :
    Stands (before ++ cut.blanks) cut.rest cut.text cut.lexeme ∧
      Separate (before ++ cut.blanks ++ cut.text) cut.rest := by
  cases cuts with
  | @digits blanks digits rest blank nonempty all ends =>
    have begins : digitAfter false (before ++ blanks) = false := by
      cases blanks with
      | cons d others =>
        exact digitAfter_append_of_forall (List.cons_ne_nil d others)
          (fun c membership => isDigit_eq_false_of_isBlank (blank c membership)) before
      | nil =>
        -- Nothing parts the digits from the text before them.
        obtain ⟨d, others, rfl⟩ := List.exists_cons_of_ne_nil nonempty
        rw [List.append_nil, Bool.eq_false_iff]
        intro digitBefore
        have apart : d.isDigit = false := separate digitBefore
        rw [all d List.mem_cons_self] at apart
        cases apart
    rw [digitsValue_eq_decimalValue]
    exact ⟨.integer nonempty all begins ends, fun _ => ends⟩
  | @single blanks rest c blank noBlank noDigit =>
    have last := digitAfter_append_of_forall (List.cons_ne_nil c [])
      (List.forall_mem_singleton.2 noDigit) (before ++ blanks)
    refine ⟨stands_ofChar noBlank noDigit, fun digitBefore => ?_⟩
    rw [last] at digitBefore
    cases digitBefore

theorem separate_nil (line : List Char) : Separate [] line := fun digit => nomatch digit

/-! ## Cutting off all lexemes -/

theorem le_start_of_mem_placedFrom {offset : Nat} (membership : p ∈ placedFrom offset line) :
    offset ≤ p.start := by
  fun_induction placedFrom offset line with
  | case1 => cases membership
  | case2 offset line cut found start stop induction =>
    rcases List.mem_cons.1 membership with rfl | later
    · exact Nat.le_add_right _ _
    · have := induction later
      omega

theorem pieces_placedFrom (offset : Nat) :
    ∀ before, Separate before line → utf8Length before = offset →
      ∀ p ∈ placedFrom offset line, ∃ front text after, p.At (before ++ line) front text after := by
  fun_induction placedFrom offset line with
  | case1 =>
    intro before separate length
    exact List.forall_mem_nil _
  | case2 offset line cut found start stop induction =>
    intro before separate length
    obtain ⟨stands, later⟩ := (cutsOff_of_cut? found).stands separate
    have joined : before ++ cut.blanks ++ (cut.text ++ cut.rest) = before ++ line := by
      rw [List.append_assoc, append_of_cut? found]
    have first : utf8Length (before ++ cut.blanks) = start := by
      rw [utf8Length_append, length]
    have next : utf8Length (before ++ cut.blanks ++ cut.text) = stop := by
      rw [utf8Length_append, first]
    have others := induction _ later next
    rw [List.append_assoc, joined] at others
    refine List.forall_mem_cons.2 ⟨⟨_, _, _, joined.symm, stands, first.symm, ?_⟩, others⟩
    rw [first]

theorem nonempty_placedFrom (offset : Nat) : ∀ p ∈ placedFrom offset line, p.start < p.stop := by
  fun_induction placedFrom offset line with
  | case1 => exact List.forall_mem_nil _
  | case2 offset line cut found start stop induction =>
    have some_text := utf8Length_pos (text_ne_nil_of_cut? found)
    exact List.forall_mem_cons.2 ⟨Nat.lt_add_of_pos_right some_text, induction⟩

theorem ordered_placedFrom (offset : Nat) :
    (placedFrom offset line).Pairwise fun p q => p.stop ≤ q.start := by
  fun_induction placedFrom offset line with
  | case1 => exact .nil
  | case2 offset line cut found start stop induction =>
    exact .cons (fun q later => le_start_of_mem_placedFrom later) induction

theorem covered_cons {start stop offset : Nat} :
    Covered (⟨lexeme, start, stop⟩ :: lexemes) offset ↔
      (start ≤ offset ∧ offset < stop) ∨ Covered lexemes offset := by
  simp [Covered]

/-- A character of two texts that are joined is in one of them. -/
theorem split_of_append_cons {front back first second : List Char} {c : Char}
    (same : first ++ second = front ++ c :: back) :
    (∃ rest, first = front ++ c :: rest ∧ back = rest ++ second) ∨
      ∃ rest, front = first ++ rest ∧ second = rest ++ c :: back := by
  rcases List.append_eq_append_iff.1 same with ⟨rest, rfl, later⟩ | ⟨rest, rfl, later⟩
  · exact .inr ⟨rest, rfl, later⟩
  · cases rest with
    | nil => exact .inr ⟨[], by simp, later.symm⟩
    | cons d rest =>
      obtain ⟨rfl, rfl⟩ := List.cons.inj later
      exact .inl ⟨rest, rfl, rfl⟩

theorem covered_placedFrom (offset : Nat) :
    ∀ front c back, line = front ++ c :: back → ∀ byte,
      offset + utf8Length front ≤ byte → byte < offset + utf8Length front + c.utf8Size →
        (Covered (placedFrom offset line) byte ↔ isBlank c = false) := by
  fun_induction placedFrom offset line with
  | case1 offset line none =>
    rintro front c back rfl byte - -
    have blank := List.dropWhile_eq_nil_iff.1 (cut?_eq_none_iff.1 none) c (by simp)
    simp [Covered, blank]
  | case2 offset line cut found start stop induction =>
    intro front c back same byte above below
    rw [covered_cons]
    have whole := append_of_cut? found
    rw [same] at whole
    rcases split_of_append_cons whole with ⟨rest, blanks, -⟩ | ⟨rest, rfl, others⟩
    · -- The character is one of the blanks before the lexeme.
      have blank := (cutsOff_of_cut? found).blank c (by simp [blanks])
      have length := congrArg utf8Length blanks
      rw [utf8Length_append, utf8Length] at length
      rw [blank]
      constructor
      · rintro (⟨starts, -⟩ | ⟨q, later, starts, -⟩)
        · omega
        · have := le_start_of_mem_placedFrom later
          omega
      · intro impossible
        cases impossible
    rw [utf8Length_append] at above below
    rcases split_of_append_cons others with ⟨tail, text, -⟩ | ⟨tail, rfl, after⟩
    · -- It belongs to the lexeme.
      obtain ⟨stands, -⟩ := (cutsOff_of_cut? found).stands (separate_nil line)
      have noBlank := stands.not_isBlank c (by simp [text])
      have length := congrArg utf8Length text
      rw [utf8Length_append, utf8Length] at length
      exact iff_of_true (.inl ⟨by omega, by omega⟩) noBlank
    · -- It stands after the lexeme.
      rw [utf8Length_append] at above below
      rw [← induction tail c back after byte (by omega) (by omega)]
      refine or_iff_right ?_
      rintro ⟨-, stops⟩
      omega

theorem lexing_placed (line : List Char) : Lexing line (placed line) where
  pieces := pieces_placedFrom 0 [] (separate_nil line) rfl
  nonempty := nonempty_placedFrom 0
  ordered := ordered_placedFrom 0
  covered before c after same offset above below := by
    refine covered_placedFrom 0 before c after same offset ?_ ?_ <;> omega

/-- A list of lexemes is what a line is cut into just when it is one of its lexings. -/
theorem placed_eq_iff_lexing {line : List Char} {lexemes : List Placed} :
    placed line = lexemes ↔ Lexing line lexemes := by
  constructor
  · rintro rfl
    exact lexing_placed line
  · exact (lexing_placed line).unique

/-- A character is a piece by itself also where its bytes begin like those of a blank. -/
example : placed "1 \u200B\u00A02".toList =
    [⟨.integer 1, 0, 1⟩, ⟨.invalid '\u200B', 2, 5⟩, ⟨.integer 2, 7, 8⟩] := by
  decide +kernel

end Lexeme

end LineCalc
