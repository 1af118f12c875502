import LineCalc.Proofs.Lexing
import LineCalc.Proofs.Scanning

/-!
# Writing tokens

The same tokens may be written in many ways: an integer with zeros in front, and
blanks of any kind before, after and between tokens.  `Rendering` says which texts these
are.  Two integers need a blank between them, since their digits would make one run
otherwise; nothing else has to be kept apart.

Such a text is read as the tokens that it was written for
(`Rendering.tokensOf_eq`), and a text with tokens is always one of them
(`exists_rendering`).  One way to write tokens is to put single blanks between them
(`joined`), so the tokens of a line survive being written out and read again
(`tokenize_of_rendering`).
-/

namespace LineCalc

open Token (Kind)

/-! ## Renderings -/

/-- A text that stands for one token.  An integer may have zeros in front. -/
inductive Spelling : Token → List Char → Prop where
  | integer {digits : List Char} {n : Nat} (nonempty : digits ≠ [])
      (all : ∀ c ∈ digits, c.isDigit = true) (value : Lexeme.decimalValue digits = n) :
      Spelling (.integer n) digits
  | operator (op : Operator) : Spelling (.operator op) [op.symbol]

/-- The kind of the first of tokens. -/
def firstKind? (tokens : List Token) : Option Kind := tokens.head?.map Token.kind

/-- A text of tokens, each with blanks after it, and no two integers without one between
them. -/
inductive Spaced : List Token → List Char → Prop where
  | nil : Spaced [] []
  | cons {token : Token} {tokens : List Token} {text gap rest : List Char}
      (spelling : Spelling token text) (blank : ∀ c ∈ gap, isBlank c = true)
      (apart : token.kind = .integer → firstKind? tokens = some .integer → gap ≠ [])
      (later : Spaced tokens rest) : Spaced (token :: tokens) (text ++ (gap ++ rest))

/-- A text of tokens with blanks before, between and after them. -/
inductive Rendering (tokens : List Token) : List Char → Prop where
  | intro {blanks rest : List Char} (blank : ∀ c ∈ blanks, isBlank c = true)
      (spaced : Spaced tokens rest) : Rendering tokens (blanks ++ rest)

/-! ## Reading a rendering -/

variable {tokens : List Token} {text : List Char}

theorem Spelling.startsWithDigit_append {token : Token} (spelling : Spelling token text)
    (rest : List Char) : startsWithDigit (text ++ rest) = decide (token.kind = .integer) := by
  cases spelling with
  | integer nonempty all =>
    rw [startsWithDigit_digits_append nonempty all]
    rfl
  | operator op => simp [Lexeme.isDigit_symbol, Token.kind]

theorem Spaced.startsWithDigit_iff (spaced : Spaced tokens text) :
    startsWithDigit text = true ↔ firstKind? tokens = some .integer := by
  cases spaced with
  | nil => simp [startsWithDigit, firstKind?]
  | cons spelling => simp [spelling.startsWithDigit_append, firstKind?]

theorem startsWithDigit_blanks_append {blanks : List Char} (nonempty : blanks ≠ [])
    (blank : ∀ c ∈ blanks, isBlank c = true) (rest : List Char) :
    startsWithDigit (blanks ++ rest) = false := by
  obtain ⟨c, others, rfl⟩ := List.exists_cons_of_ne_nil nonempty
  exact isDigit_eq_false_of_isBlank (blank c List.mem_cons_self)

/-- After an integer and its blanks no digit follows at once. -/
theorem Spaced.startsWithDigit_gap_append {gap : List Char} (spaced : Spaced tokens text)
    (blank : ∀ c ∈ gap, isBlank c = true) (apart : firstKind? tokens = some .integer → gap ≠ []) :
    startsWithDigit (gap ++ text) = false := by
  by_cases none : gap = []
  · subst none
    rw [List.nil_append, Bool.eq_false_iff, ne_eq, spaced.startsWithDigit_iff]
    exact fun integer => apart integer rfl
  · exact startsWithDigit_blanks_append none blank text

theorem single_symbol (op : Operator) : Lexeme.single op.symbol = .operator op := by
  rw [← Lexeme.ofChar_eq_single, Lexeme.ofChar_symbol]

theorem Spaced.tokensOf_eq (spaced : Spaced tokens text) (position : Nat) :
    tokensOf (itemsFrom position text) = .ok (tokens ++ [.endOfInput]) := by
  induction spaced generalizing position with
  | nil => rfl
  | @cons token tokens text gap rest spelling blank apart later induction =>
    cases spelling with
    | integer nonempty all value =>
      have ends := later.startsWithDigit_gap_append blank (apart rfl)
      rw [itemsFrom_digits_append nonempty all ends, itemsFrom_blanks_append blank, value]
      exact tokensOf_cons_of_answer rfl (induction _)
    | operator op =>
      rw [List.singleton_append,
        itemsFrom_cons_single (Lexeme.isDigit_symbol op) (Lexeme.isBlank_symbol op),
        itemsFrom_blanks_append blank, single_symbol]
      exact tokensOf_cons_of_answer rfl (induction _)

/-- A rendering is read as its tokens. -/
theorem Rendering.tokensOf_eq (rendering : Rendering tokens text) (position : Nat) :
    tokensOf (itemsFrom position text) = .ok (tokens ++ [.endOfInput]) := by
  obtain ⟨blank, spaced⟩ := rendering
  rw [itemsFrom_blanks_append blank]
  exact spaced.tokensOf_eq _

/-! ## Every text with tokens is a rendering -/

theorem Rendering.cons {blanks rest : List Char} {token : Token}
    (blank : ∀ c ∈ blanks, isBlank c = true) (spelling : Spelling token text)
    (later : Rendering tokens rest)
    (ends : token.kind = .integer → startsWithDigit rest = false) :
    Rendering (token :: tokens) (blanks ++ (text ++ rest)) := by
  obtain @⟨gap, rest, space, spaced⟩ := later
  refine .intro blank (.cons spelling space ?_ spaced)
  rintro integer next rfl
  have digit := spaced.startsWithDigit_iff.2 next
  rw [← List.nil_append rest, ends integer] at digit
  cases digit

theorem exists_rendering {position : Nat}
    (listed : tokensOf (itemsFrom position text) = .ok tokens) :
    ∃ written, tokens = written ++ [.endOfInput] ∧ Rendering written text := by
  induction length : text.length using Nat.strong_induction_on
    generalizing text tokens position with
  | _ length induction =>
    subst length
    cases found : Lexeme.cut? text with
    | none =>
      rw [itemsFrom_of_cut?_eq_none found] at listed
      cases listed
      have blank := List.dropWhile_eq_nil_iff.1 (Lexeme.cut?_eq_none_iff.1 found)
      have rendering : Rendering [] (text ++ []) := .intro blank .nil
      rw [List.append_nil] at rendering
      exact ⟨[], rfl, rendering⟩
    | some cut =>
      rw [itemsFrom_of_cut? found] at listed
      obtain ⟨token, others, first, later, rfl⟩ := exists_of_tokensOf_cons listed
      obtain ⟨written, rfl, rendering⟩ :=
        induction _ (Lexeme.length_rest_lt found) later rfl
      refine ⟨token :: written, rfl, ?_⟩
      cases Lexeme.cutsOff_of_cut? found with
      | digits blank nonempty all ends =>
        rw [Lexeme.digitsValue_eq_decimalValue] at first
        cases first
        exact rendering.cons blank (.integer nonempty all rfl) fun _ => ends
      | @single blanks rest c blank noBlank noDigit =>
        rw [Lexeme.ofChar] at first
        cases spelled : Operator.ofChar? c with
        | none => rw [spelled] at first; cases first
        | some op =>
          obtain rfl := Operator.symbol_of_ofChar? spelled
          rw [spelled] at first
          cases first
          refine rendering.cons blank (.operator op) fun integer => ?_
          cases integer

/-- The texts that are read as tokens are their renderings. -/
theorem tokenize_eq_ok_iff :
    tokenize text = .ok (tokens ++ [.endOfInput]) ↔ Rendering tokens text := by
  rw [tokenize_eq_ok_iff_tokensOf]
  constructor
  · intro listed
    obtain ⟨written, same, rendering⟩ := exists_rendering listed
    obtain ⟨rfl, -⟩ := List.append_inj' same rfl
    exact rendering
  · intro rendering
    exact rendering.tokensOf_eq 1

/-! ## Single blanks -/

/-- The digits of an integer or the symbol of an operator; the end of the line is not
written. -/
def Token.text? (token : Token) : Option (List Char) :=
  (token.value?.map natDigits).or (token.symbol?.map ([·]))

/-- Tokens with single blanks between them. -/
def joined (tokens : List Token) : List Char := [' '].intercalate (tokens.filterMap Token.text?)

theorem Spelling.exists_text? {token : Token} (spelling : Spelling token text) :
    ∃ written, token.text? = some written ∧ Spelling token written := by
  cases spelling with
  | @integer _ n =>
    have value : Lexeme.decimalValue (natDigits n) = n := by
      rw [← Lexeme.digitsValue_eq_decimalValue, digitsValue_natDigits]
    have all : ∀ c ∈ natDigits n, c.isDigit = true := fun c => isDigit_of_mem_natDigits
    exact ⟨natDigits n, rfl, .integer (natDigits_ne_nil n) all value⟩
  | operator op => exact ⟨[op.symbol], rfl, .operator op⟩

theorem isBlank_space : ∀ c ∈ [' '], isBlank c = true := List.all_eq_true.1 rfl

theorem Spaced.spaced_joined (spaced : Spaced tokens text) : Spaced tokens (joined tokens) := by
  induction spaced with
  | nil => exact .nil
  | @cons token tokens text gap rest spelling blank apart later induction =>
    obtain ⟨written, found, canonical⟩ := spelling.exists_text?
    cases later with
    | nil =>
      have alone : Spaced [token] (written ++ ([] ++ [])) :=
        .cons canonical (List.forall_mem_nil _) (fun _ none => nomatch none) .nil
      rw [List.append_nil, List.append_nil] at alone
      rw [joined, List.filterMap_cons_some found, List.filterMap_nil, List.intercalate_singleton]
      exact alone
    | @cons next others _ _ _ nextSpelling =>
      obtain ⟨nextWritten, nextFound, -⟩ := nextSpelling.exists_text?
      rw [joined, List.filterMap_cons_some nextFound] at induction
      rw [joined, List.filterMap_cons_some found, List.filterMap_cons_some nextFound,
        List.intercalate_cons_cons, List.append_assoc]
      exact .cons canonical isBlank_space (fun _ _ => List.cons_ne_nil _ _) induction

theorem Rendering.rendering_joined (rendering : Rendering tokens text) :
    Rendering tokens (joined tokens) := by
  obtain ⟨-, spaced⟩ := rendering
  exact .intro (List.forall_mem_nil _) spaced.spaced_joined

/-- The end of the line adds nothing to what is written. -/
theorem joined_append_endOfInput (tokens : List Token) :
    joined (tokens ++ [.endOfInput]) = joined tokens := by
  have none : [Token.endOfInput].filterMap Token.text? = [] := rfl
  rw [joined, List.filterMap_append, none, List.append_nil, joined]

/-! ## There and back -/

/-- Tokens that are written out in any way are read back, and the tokens of a line are
read back from their digits and symbols with single blanks between them. -/
theorem tokenize_of_rendering :
    (∀ tokens text, Rendering tokens text →
        tokenize text = .ok (tokens ++ [.endOfInput])) ∧
      ∀ line tokens, tokenize line = .ok tokens → tokenize (joined tokens) = .ok tokens := by
  constructor
  · intro tokens text rendering
    exact tokenize_eq_ok_iff.2 rendering
  · intro line tokens listed
    obtain ⟨written, rfl, rendering⟩ := exists_rendering (tokenize_eq_ok_iff_tokensOf.1 listed)
    rw [joined_append_endOfInput]
    exact tokenize_eq_ok_iff.2 rendering.rendering_joined

/-- Integers with zeros in front, next to each other and next to an operator. -/
theorem tokenize_of_rendering_zeros :
    Rendering [.integer 7, .integer 12, .operator .div] "\u00A0007\u30000012/ ".toList ∧
      tokenize "\u00A0007\u30000012/ ".toList =
        .ok [.integer 7, .integer 12, .operator .div, .endOfInput] ∧
      tokenize "7 12 /".toList = .ok [.integer 7, .integer 12, .operator .div, .endOfInput] := by
  have seven : Spelling (.integer 7) ['0', '0', '7'] :=
    .integer (List.cons_ne_nil _ _) (List.all_eq_true.1 rfl) rfl
  have twelve : Spelling (.integer 12) ['0', '0', '1', '2'] :=
    .integer (List.cons_ne_nil _ _) (List.all_eq_true.1 rfl) rfl
  have noBreak : ∀ c ∈ ['\u00A0'], isBlank c = true := List.all_eq_true.1 rfl
  have ideographic : ∀ c ∈ ['\u3000'], isBlank c = true := List.all_eq_true.1 rfl
  have last : Spaced [.operator .div] (['/'] ++ ([' '] ++ [])) :=
    .cons (.operator .div) isBlank_space (fun integer => nomatch integer) .nil
  have middle : Spaced [.integer 12, .operator .div]
      (['0', '0', '1', '2'] ++ ([] ++ (['/'] ++ ([' '] ++ [])))) :=
    .cons twelve (List.forall_mem_nil _) (fun _ next => nomatch next) last
  have rendering : Rendering [.integer 7, .integer 12, .operator .div]
      (['\u00A0'] ++ (['0', '0', '7'] ++ (['\u3000'] ++
        (['0', '0', '1', '2'] ++ ([] ++ (['/'] ++ ([' '] ++ []))))))) :=
    .intro noBreak (.cons seven ideographic (fun _ _ => List.cons_ne_nil _ _) middle)
  obtain ⟨there, back⟩ := tokenize_of_rendering
  have listed := there _ _ rendering
  exact ⟨rendering, listed, back _ _ listed⟩

end LineCalc
