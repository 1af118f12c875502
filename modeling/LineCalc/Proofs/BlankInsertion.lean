import LineCalc.Proofs.MovedPositions

/-!
# Blanks between the pieces of a line

A blank may be put into a line anywhere but within a run of digits, and the line
still comes to the same: the items stay, and those after the blank move on by one
position (`items_insert_blank`).  So the results agree and the faults differ by that
shift (`evaluate_tokenize_insert_blank`).
-/

namespace LineCalc

/-! ## Positions of items -/

/-- The position of a character after one more is put in behind the first `n`. -/
def shiftAfter (n position : Nat) : Nat := if n < position then position + 1 else position

/-- A blank in a line moves the items after it on by one position. -/
theorem items_insert_blank {front back : List Char} {w : Char} (blank : isBlank w = true)
    (separate : Separate front back) :
    items (front ++ w :: back) =
      (items (front ++ back)).map (Item.mapPosition (shiftAfter front.length)) := by
  have apart : Separate front (w :: back) :=
    separate_of_not_startsWithDigit (isDigit_eq_false_of_isBlank blank)
  have stay : (itemsFrom 1 front).map (Item.mapPosition (shiftAfter front.length)) =
      itemsFrom 1 front := by
    refine (List.map_congr_left fun item membership => ?_).trans (List.map_id _)
    have place := (position_of_mem_itemsAfter membership).2
    have unmoved : shiftAfter front.length item.position = item.position := by
      rw [shiftAfter, if_neg (by omega)]
    rw [Item.mapPosition, unmoved, id]
  have move : (itemsFrom (1 + front.length) back).map
        (Item.mapPosition (shiftAfter front.length)) =
      itemsFrom (1 + front.length + 1) back := by
    rw [itemsFrom, itemsFrom, itemsAfter_succ]
    refine List.map_congr_left fun item membership => ?_
    have place := (position_of_mem_itemsAfter membership).1
    have moved : shiftAfter front.length item.position = item.position + 1 := by
      rw [shiftAfter, if_pos (by omega)]
    rw [Item.mapPosition, moved, Item.mapPosition]
  rw [items, items, itemsFrom_append apart, itemsFrom_append separate, List.map_append,
    itemsFrom_cons_of_isBlank blank, stay, move]

/-! ## The line with a blank more -/

/-- A blank put into a line changes neither its result nor its tokens, and a fault
only in its position, which the blank moves on by one if the fault lies behind it. -/
theorem evaluate_tokenize_insert_blank {front back : List Char} {w : Char}
    (blank : isBlank w = true) (separate : Separate front back) :
    evaluate (front ++ w :: back) =
        (evaluate (front ++ back)).mapError
          (LineError.mapPosition (shiftAfter front.length)) ∧
      tokenize (front ++ w :: back) =
        (tokenize (front ++ back)).mapError
          (LineError.mapPosition (shiftAfter front.length)) := by
  have moved := items_insert_blank blank separate
  constructor
  · obtain ⟨answer, taken, course⟩ := exists_course ((front ++ back).length + 1)
      (items (front ++ back))
    have shifted := course.mapPosition (shiftAfter front.length)
    have stop : shiftAfter front.length ((front ++ back).length + 1) =
        (front ++ w :: back).length + 1 := by
      have inside : front.length ≤ (front ++ back).length := by simp
      rw [shiftAfter, if_pos (Nat.lt_succ_of_le inside)]
      simp only [List.length_append, List.length_cons]
      omega
    rw [stop, ← moved] at shifted
    rw [evaluate_of_course shifted, evaluate_of_course course]
  · rw [tokenize_eq_tokensOf, tokenize_eq_tokensOf, moved, tokensOf_map]
    cases tokensOf (items (front ++ back)) <;> rfl

/-- An ideographic space in a line with two faults moves both on. -/
theorem evaluate_tokenize_insert_ideographic_space :
    evaluate "7\u3000/0@".toList = .error (.arithmetic (.divisionByZero 3)) ∧
      tokenize "7\u3000/0@".toList = .error (.read (.invalidCharacter '@' 5)) := by
  have blank : isBlank '\u3000' = true := by decide
  have separate : Separate ['7'] ['/', '0', '@'] := by decide
  obtain ⟨number, tokens⟩ := evaluate_tokenize_insert_blank blank separate
  have division : evaluate (['7'] ++ ['/', '0', '@']) =
      .error (.arithmetic (.divisionByZero 2)) := by
    decide +kernel
  have character : tokenize (['7'] ++ ['/', '0', '@']) =
      .error (.read (.invalidCharacter '@' 4)) := by
    decide +kernel
  rw [division] at number
  rw [character] at tokens
  exact ⟨number, tokens⟩

end LineCalc
