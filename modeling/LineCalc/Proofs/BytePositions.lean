import LineCalc.Text.Position
import Mathlib.Data.Nat.Basic
import Mathlib.Order.Monotone.Defs

/-!
# Characters and their bytes

Every character of a line begins at some byte of the line's UTF-8 form (`firstByte`), and
`charPosition` is the way back.  The two are related like a map and its inverse on ordered
sets: a position is at most that of an offset just if its first byte is at or before the offset
(`le_charPosition_iff`).  So an offset within a character has the position of that character,
one past the end has the position after the last, and a larger offset has no smaller position
(`charPosition_inverts`).
-/

namespace LineCalc

/-- The offset of the first byte of the character at a position, counted from 1.  One past the
last character it is the number of bytes of the line. -/
def firstByte (line : List Char) (position : Nat) : Nat :=
  (String.ofList (line.take (position - 1))).utf8ByteSize

variable {line : List Char} {k offset : Nat}

theorem utf8Length_eq_utf8ByteSize (text : List Char) :
    utf8Length text = (String.ofList text).utf8ByteSize := by
  rw [String.utf8ByteSize, String.toByteArray_ofList]
  induction text with
  | nil => rfl
  | cons c rest induction =>
    rw [utf8Length, induction, List.utf8Encode_cons, ByteArray.size_append,
      List.utf8Encode_singleton, List.size_toByteArray, String.length_utf8EncodeChar]

/-- The bytes of the first characters are before an offset just if its position is after
them. -/
theorem lt_charPosition_iff (inside : k ≤ line.length) :
    k < charPosition line offset ↔ utf8Length (line.take k) ≤ offset := by
  induction line generalizing k offset with
  | nil =>
    obtain rfl : k = 0 := Nat.le_zero.1 inside
    simp [charPosition, utf8Length]
  | cons c rest induction =>
    rw [charPosition]
    cases k with
    | zero =>
      rw [List.take_zero, utf8Length]
      split <;> omega
    | succ k =>
      rw [List.take_succ_cons, utf8Length]
      split
      next fits =>
        rw [Nat.add_lt_add_iff_right, induction (Nat.le_of_succ_le_succ inside)]
        omega
      next => omega

theorem charPosition_le (line : List Char) (offset : Nat) :
    charPosition line offset ≤ line.length + 1 := by
  induction line generalizing offset with
  | nil => exact Nat.le_refl 1
  | cons c rest induction =>
    have later := induction (offset - c.utf8Size)
    rw [charPosition, List.length_cons]
    split <;> omega

theorem one_le_charPosition (line : List Char) (offset : Nat) :
    1 ≤ charPosition line offset := by
  have start : utf8Length (line.take 0) ≤ offset := Nat.zero_le offset
  exact (lt_charPosition_iff (Nat.zero_le _)).2 start

/-- A position is not after an offset just if its first byte is not. -/
theorem le_charPosition_iff (positive : 1 ≤ k) (inside : k ≤ line.length + 1) :
    k ≤ charPosition line offset ↔ firstByte line k ≤ offset := by
  obtain ⟨j, rfl⟩ := Nat.exists_eq_add_of_le' positive
  have before : j < charPosition line offset ↔ utf8Length (line.take j) ≤ offset :=
    lt_charPosition_iff (Nat.le_of_succ_le_succ inside)
  rwa [utf8Length_eq_utf8ByteSize] at before

theorem firstByte_length_succ (line : List Char) :
    firstByte line (line.length + 1) = (String.ofList line).utf8ByteSize := by
  rw [firstByte, Nat.add_sub_cancel, List.take_length]

/-- An offset has the position of a character just if it is between the first byte of that
character and that of the next. -/
theorem charPosition_eq_iff (positive : 1 ≤ k) (inside : k ≤ line.length) :
    charPosition line offset = k ↔
      firstByte line k ≤ offset ∧ offset < firstByte line (k + 1) := by
  have here : k ≤ charPosition line offset ↔ _ :=
    le_charPosition_iff positive (Nat.le_succ_of_le inside)
  have next : k + 1 ≤ charPosition line offset ↔ _ :=
    le_charPosition_iff k.succ_pos (Nat.succ_le_succ inside)
  rw [← here, ← Nat.not_le, ← next]
  omega

/-- It has the position after the last character just if no byte of the line is at or after
it. -/
theorem charPosition_eq_length_succ_iff :
    charPosition line offset = line.length + 1 ↔ (String.ofList line).utf8ByteSize ≤ offset := by
  have last : line.length + 1 ≤ charPosition line offset ↔ _ :=
    le_charPosition_iff line.length.succ_pos (Nat.le_refl _)
  have bound := charPosition_le line offset
  rw [← firstByte_length_succ, ← last]
  omega

theorem monotone_charPosition (line : List Char) : Monotone (charPosition line) := by
  intro offset later le
  have positive := one_le_charPosition line offset
  have inside := charPosition_le line offset
  have first := (le_charPosition_iff positive inside).1 (Nat.le_refl _)
  exact (le_charPosition_iff positive inside).2 (Nat.le_trans first le)

/-- The position of an offset is that of the character whose bytes it falls among, or one past
the last character if it is at the end of the line or after it.  A larger offset has no smaller
position, and the position at the end of a front part of the line is one more than the number
of characters in that part. -/
theorem charPosition_inverts (line : List Char) :
    (∀ k offset, 1 ≤ k → k ≤ line.length →
      (charPosition line offset = k ↔
        firstByte line k ≤ offset ∧ offset < firstByte line (k + 1))) ∧
    firstByte line (line.length + 1) = (String.ofList line).utf8ByteSize ∧
    (∀ offset, charPosition line offset = line.length + 1 ↔
      (String.ofList line).utf8ByteSize ≤ offset) ∧
    Monotone (charPosition line) ∧
    ∀ before after, line = before ++ after →
      charPosition line (String.ofList before).utf8ByteSize = before.length + 1 := by
  refine ⟨fun k offset => charPosition_eq_iff, firstByte_length_succ line, fun offset =>
    charPosition_eq_length_succ_iff, monotone_charPosition line, ?_⟩
  rintro before after rfl
  rw [← utf8Length_eq_utf8ByteSize, charPosition_utf8Length]

end LineCalc
