import LineCalc.Binary64.Rounding

/-!
# Whole numbers as binary64 numbers

A whole number of any size is converted in two steps.  It is cut to its leading
64 bits (`abridge`), 11 more than a significand holds, and what is left is
rounded to the nearest number.  The lowest of the 64 bits is *sticky*: it is set
when a one was cut off, so that a number just above the middle of two
neighbours does not pass for the middle.

The ones that are cut off are looked for word by word, in words of 64 bits.  In
each word below the topmost only as many of the lowest bits are looked at as the
topmost has (`sticky`).  These are all the bits cut off the word next to the
topmost, but not all of the words further down.  A number whose excess over the
middle lies in the other bits alone is hence rounded to even, like the middle
itself; in all other cases the result is the nearest number.  A number of one
word has nothing cut off (`ofNat_of_lt`).
-/

namespace LineCalc

namespace Binary64

/-! ## Leading bits -/

/-- The number of bits in a word, and of the leading bits that are kept. -/
def wordBits : Nat := 64

/-- The number of bits in the topmost word of `n`. -/
def topBits (n : Nat) : Nat := n.log2 % wordBits + 1

/-- The number of bits of `n` below the leading ones. -/
def droppedBits (n : Nat) : Nat := n.log2 + 1 - wordBits

/-- Whether a word of `n` below the topmost has a one among its lowest
`topBits n` bits. -/
def sticky (n : Nat) : Bool :=
  (List.range (n.log2 / wordBits)).any fun i =>
    n / twoPow (wordBits * i) % twoPow (topBits n) != 0

/-- The leading bits of `n`, the lowest of them set if `n` is sticky. -/
def leading (n : Nat) : Nat :=
  let kept := n / twoPow (droppedBits n)
  if sticky n then kept / 2 * 2 + 1 else kept

/-- The number that is rounded in the place of `n`: its leading bits at their
own height. -/
def abridge (n : Nat) : Nat := leading n * twoPow (droppedBits n)

/-- Nothing is cut off a number of one word. -/
theorem abridge_of_lt {n : Nat} (small : n < twoPow wordBits) : abridge n = n := by
  have length : n.log2 < wordBits := by
    by_cases zero : n = 0
    · subst zero; decide
    · exact (log2_lt_iff zero).2 small
  have none : droppedBits n = 0 := by unfold droppedBits; omega
  have clear : sticky n = false := by
    rw [sticky, Nat.div_eq_of_lt length]
    rfl
  simp [abridge, leading, none, clear]

/-- The leading bits of a number longer than a word fill a word. -/
theorem leading_bounds {n : Nat} (long : wordBits ≤ n.log2) :
    twoPow 63 ≤ leading n ∧ leading n < twoPow 64 := by
  have nonzero : n ≠ 0 := by
    rintro rfl
    exact absurd long (by decide)
  have split : n.log2 + 1 = 64 + droppedBits n := by
    unfold droppedBits wordBits at *
    omega
  have low : twoPow 63 ≤ n / twoPow (droppedBits n) := by
    rw [Nat.le_div_iff_mul_le (twoPow_pos _), ← twoPow_add,
      show 63 + droppedBits n = n.log2 by omega]
    exact Nat.log2_self_le nonzero
  have high : n / twoPow (droppedBits n) < twoPow 64 := by
    rw [Nat.div_lt_iff_lt_mul (twoPow_pos _), ← twoPow_add, ← split]
    exact lt_twoPow_log2 n
  -- Both bounds are even, so setting the lowest bit stays between them.
  have even : twoPow 64 = 2 * twoPow 63 ∧ twoPow 63 = 2 * twoPow 62 := ⟨rfl, rfl⟩
  simp only [leading]
  split <;> omega

/-- Cutting keeps the length of a number. -/
theorem log2_abridge (n : Nat) : (abridge n).log2 = n.log2 := by
  by_cases small : n < twoPow wordBits
  · rw [abridge_of_lt small]
  · have nonzero : n ≠ 0 := by
      rintro rfl
      exact small (twoPow_pos _)
    have long : wordBits ≤ n.log2 :=
      Nat.le_of_not_lt fun below => small ((log2_lt_iff nonzero).1 below)
    obtain ⟨low, high⟩ := leading_bounds long
    have split : n.log2 = 63 + droppedBits n := by
      unfold droppedBits wordBits at *
      omega
    have above : twoPow n.log2 ≤ abridge n := by
      rw [split, twoPow_add]
      exact Nat.mul_le_mul_right _ low
    have below : abridge n < twoPow (n.log2 + 1) := by
      rw [show n.log2 + 1 = 64 + droppedBits n by omega, twoPow_add]
      exact Nat.mul_lt_mul_of_pos_right high (twoPow_pos _)
    have positive : abridge n ≠ 0 := Nat.ne_of_gt (Nat.lt_of_lt_of_le (twoPow_pos _) above)
    have upper := (log2_lt_iff positive).2 below
    have lower := Nat.not_lt.1 fun short =>
      Nat.not_lt.2 above ((log2_lt_iff positive).1 short)
    omega

/-- Only zero is cut to zero. -/
theorem abridge_eq_zero_iff {n : Nat} : abridge n = 0 ↔ n = 0 := by
  constructor
  · intro gone
    by_cases small : n < twoPow wordBits
    · rwa [abridge_of_lt small] at gone
    · have same := log2_abridge n
      rw [gone] at same
      refine Decidable.byContradiction fun nonzero => small ?_
      exact (log2_lt_iff nonzero).1 (same ▸ by decide)
  · rintro rfl
    exact abridge_of_lt (twoPow_pos _)

/-! ## Conversion -/

/-- The binary64 number that a whole number is converted to. -/
def ofNat (n : Nat) : Binary64 := nearest false (abridge n * one) 1

/-- A number of one word is converted to the nearest number. -/
theorem ofNat_of_lt {n : Nat} (small : n < twoPow wordBits) :
    ofNat n = nearest false (n * one) 1 := by
  rw [ofNat, abridge_of_lt small]

end Binary64

end LineCalc
