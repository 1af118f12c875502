import LineCalc.Operator
import LineCalc.Text.Blank
import LineCalc.Text.Digits
import LineCalc.Text.Position

/-!
# Lexemes

A line is cut into lexemes with blanks between them.  A run of ASCII digits is
one lexeme, as long as it goes; an operator is one; and any other character is
an invalid lexeme by itself, after which the cutting goes on.

`Lexeme.cut?` takes the first lexeme off a line.  It loses nothing
(`append_of_cut?`) and takes at least one character (`length_rest_lt`), which is
what every recursion over a line rests on.
-/

namespace LineCalc

/-- A piece of a line. -/
inductive Lexeme where
  /-- A run of digits, with its value. -/
  | integer (value : Nat)
  | operator (op : Operator)
  /-- A character that is no blank, no digit and no operator. -/
  | invalid (character : Char)
  deriving DecidableEq

namespace Lexeme

/-! ## The first lexeme -/

/-- A line with its first lexeme cut off. -/
structure Cut where
  /-- The blanks before the lexeme. -/
  blanks : List Char
  lexeme : Lexeme
  /-- The characters of the lexeme. -/
  text : List Char
  /-- The line after the lexeme. -/
  rest : List Char

/-- The lexeme of one character that is no blank and no digit. -/
def ofChar (c : Char) : Lexeme :=
  match Operator.ofChar? c with
  | some op => operator op
  | none => invalid c

/-- The first lexeme of a line, if there is more to it than blanks. -/
def cut? (line : List Char) : Option Cut :=
  match line.dropWhile isBlank with
  | [] => none
  | c :: tail =>
    -- Only a run of digits can be longer than one character.
    if c.isDigit then
      let digits := (c :: tail).takeWhile Char.isDigit
      some ⟨line.takeWhile isBlank, integer (digitsValue digits), digits,
        (c :: tail).dropWhile Char.isDigit⟩
    else
      some ⟨line.takeWhile isBlank, ofChar c, [c], tail⟩

theorem append_of_cut? {line : List Char} {cut : Cut} (found : cut? line = some cut) :
    cut.blanks ++ (cut.text ++ cut.rest) = line := by
  have whole : line.takeWhile isBlank ++ line.dropWhile isBlank = line :=
    List.takeWhile_append_dropWhile
  unfold cut? at found
  split at found
  next => cases found
  next c tail starts =>
    rw [starts] at whole
    split at found <;> cases found
    · simpa only [List.takeWhile_append_dropWhile] using whole
    · exact whole

/-- A lexeme has at least one character. -/
theorem text_ne_nil_of_cut? {line : List Char} {cut : Cut} (found : cut? line = some cut) :
    cut.text ≠ [] := by
  unfold cut? at found
  split at found
  next => cases found
  next c tail starts =>
    split at found <;> cases found
    next digit => simp [digit]
    next => simp

theorem length_rest_lt {line : List Char} {cut : Cut} (found : cut? line = some cut) :
    cut.rest.length < line.length := by
  have whole := congrArg List.length (append_of_cut? found)
  have some_text := List.length_pos_iff.2 (text_ne_nil_of_cut? found)
  simp only [List.length_append] at whole
  omega

/-- A line without a lexeme is a line of blanks. -/
theorem cut?_eq_none_iff {line : List Char} :
    cut? line = none ↔ line.dropWhile isBlank = [] := by
  unfold cut?
  split
  next ends => simp [ends]
  next c tail starts =>
    rw [starts]
    split <;> simp

/-! ## All lexemes -/

/-- A lexeme with its place in a line, in bytes from the start of the line. -/
structure Placed where
  lexeme : Lexeme
  /-- The offset of its first byte. -/
  start : Nat
  /-- The offset after its last byte. -/
  stop : Nat
  deriving DecidableEq

/-- The lexemes of a line that starts at an offset. -/
def placedFrom (offset : Nat) (line : List Char) : List Placed :=
  match _ : cut? line with
  | none => []
  | some cut =>
    let start := offset + utf8Length cut.blanks
    let stop := start + utf8Length cut.text
    ⟨cut.lexeme, start, stop⟩ :: placedFrom stop cut.rest
termination_by line.length
decreasing_by exact length_rest_lt ‹_›

theorem placedFrom_of_cut?_eq_none {line : List Char} (none : cut? line = none) (offset : Nat) :
    placedFrom offset line = [] := by
  rw [placedFrom]
  split
  next => rfl
  next cut found =>
    rw [none] at found
    cases found

theorem placedFrom_of_cut? {line : List Char} {cut : Cut} (found : cut? line = some cut)
    (offset : Nat) :
    let start := offset + utf8Length cut.blanks
    let stop := start + utf8Length cut.text
    placedFrom offset line = ⟨cut.lexeme, start, stop⟩ :: placedFrom stop cut.rest := by
  rw [placedFrom]
  split
  next none =>
    rw [none] at found
    cases found
  next other same =>
    rw [found] at same
    cases same
    rfl

/-- The lexemes of a line in order. -/
def placed (line : List Char) : List Placed := placedFrom 0 line

end Lexeme

end LineCalc
