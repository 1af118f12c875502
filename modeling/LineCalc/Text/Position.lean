/-!
# Positions in a line

A position counts characters from 1, while an offset counts the bytes of the
line's UTF-8 form from 0.  The position of an offset is that of the character
whose bytes it falls among, and one past the last character if it falls among
none.
-/

namespace LineCalc

/-- The position of the character that holds the byte at an offset. -/
def charPosition : List Char → Nat → Nat
  | [], _ => 1
  | c :: rest, offset =>
    if c.utf8Size ≤ offset then charPosition rest (offset - c.utf8Size) + 1 else 1

/-- The number of bytes of the UTF-8 form. -/
def utf8Length : List Char → Nat
  | [] => 0
  | c :: rest => c.utf8Size + utf8Length rest

@[simp] theorem utf8Length_append (front back : List Char) :
    utf8Length (front ++ back) = utf8Length front + utf8Length back := by
  induction front with
  | nil => simp [utf8Length]
  | cons c front ih => simp [utf8Length, ih, Nat.add_assoc]

/-- The first offset after a front part is at the position after its
characters. -/
theorem charPosition_utf8Length (front back : List Char) :
    charPosition (front ++ back) (utf8Length front) = front.length + 1 := by
  induction front with
  | nil =>
    cases back with
    | nil => rfl
    | cons c rest =>
      have := Char.utf8Size_pos c
      simp only [List.nil_append, charPosition, utf8Length, List.length_nil]
      split <;> omega
  | cons c front ih =>
    simp only [List.cons_append, charPosition, utf8Length, List.length_cons]
    rw [if_pos (by omega), Nat.add_sub_cancel_left, ih]

example : charPosition "é+x".toList 2 = 2 := by decide

end LineCalc
