import LineCalc.Binary64.Text
import LineCalc.Proofs.RoundingOrder

/-!
# Decimals of whole numbers

The search for the shortest decimal of a magnitude ends, at the latest, on a grid that
holds the magnitude itself (`exists_firstOnGrid`).  A whole magnitude lies on the grid of
whole numbers, so its shortest decimal has no negative exponent
(`shortest_of_whole`), and both layouts write it as its digits and the zeros that
its exponent counts, and then their ending (`positional_of_natCast`).

Such a writing is a run of digits, which `Spells` relates to the number that it is read as.
Up to `2 ^ 53` that is the number itself, digit by digit (`write_of_small`).
-/

namespace LineCalc

open Binary64 (Magnitude one roundUnits roundUnits_one roundUnits_mul_one)

namespace Decimal

/-! ## Grids -/

theorem exponent_of_onGrid? {m : Magnitude} {e : Int} {d : Decimal}
    (found : onGrid? m e = some d) : d.exponent = e := by
  rw [onGrid?] at found
  have member := List.mem_of_find?_eq_some found
  rw [neighbours] at member
  split at member
  all_goals
    rw [List.mem_cons, List.mem_singleton] at member
    rcases member with same | same
    · rw [same]
    · rw [same]

/-- A search through the numbers below `n` stops no later than where it finds something. -/
theorem exists_first_le {α : Type} {f : Nat → Option α} {n k : Nat} {a : α} (found : f k = some a)
    (inside : k < n) :
    ∃ j ≤ k, ∃ b, f j = some b ∧ (List.range n).findSome? f = some b := by
  have member : k ∈ List.range n := List.mem_range.2 inside
  have some : ((List.range n).findSome? f).isSome :=
    List.findSome?_isSome_iff.2 ⟨k, member, by rw [found]; rfl⟩
  obtain ⟨b, first⟩ := Option.isSome_iff_exists.1 some
  obtain ⟨before, j, after, all, here, none⟩ := List.findSome?_eq_some_iff.1 first
  have ordered : (before ++ j :: after).Pairwise (· < ·) := all ▸ List.pairwise_lt_range
  refine ⟨j, ?_, b, here, first⟩
  rw [all, List.mem_append, List.mem_cons] at member
  rcases member with earlier | same | later
  · have missing := none k earlier
    rw [found] at missing
    cases missing
  · exact Nat.le_of_eq same.symm
  · exact Nat.le_of_lt (List.rel_of_pairwise_cons (List.pairwise_append.1 ordered).2.1 later)

/-- The search stops no later than on a grid with a point that stands for the magnitude. -/
theorem exists_firstOnGrid {m : Magnitude} {top e : Int} {point : Decimal}
    (found : onGrid? m e = some point) (finest : -324 ≤ e) (below : e ≤ top) :
    ∃ d, firstOnGrid? m top = some d ∧ e ≤ d.exponent ∧ onGrid? m d.exponent = some d := by
  obtain ⟨k, step⟩ := Int.eq_ofNat_of_zero_le (Int.sub_nonneg.2 below)
  have grid : top - Int.ofNat k = e := by
    rw [Int.ofNat_eq_natCast]
    omega
  rw [← grid] at found
  obtain ⟨j, first_le, d, here, first⟩ :=
    exists_first_le (f := fun k => onGrid? m (top - Int.ofNat k)) (n := (top + 325).toNat) found
      (by omega)
  have exponent := exponent_of_onGrid? here
  refine ⟨d, first, ?_, exponent ▸ here⟩
  rw [exponent, Int.ofNat_eq_natCast]
  omega

/-! ## Whole magnitudes -/

theorem readsAs_of_whole {m : Magnitude} {n : Nat} (units : m.units = n * one) :
    readsAs ⟨n, 0⟩ m = true := by
  have kept := roundUnits_one m.onGrid
  rw [readsAs, beq_iff_eq]
  change roundUnits (n * one * tenPow 0) (tenPow 0) = m.units
  rw [tenPow_zero, Nat.mul_one, ← units, kept]

/-- On the grid of whole numbers a whole magnitude is its own neighbour. -/
theorem onGrid?_zero_of_whole {m : Magnitude} {n : Nat} (units : m.units = n * one) :
    onGrid? m 0 = some ⟨n, 0⟩ := by
  have positive : 0 < one := twoPow_pos 1074
  have quotient : m.units / one = n := by rw [units, Nat.mul_div_cancel n positive]
  have remainder : m.units % one = 0 := by rw [units, Nat.mul_mod_left]
  have both : neighbours m 0 = [⟨n, 0⟩, ⟨n + 1, 0⟩] := by
    simp only [neighbours, Int.neg_zero, Int.toNat_zero, tenPow_zero, Nat.mul_one, quotient,
      remainder, Nat.mul_zero, positive, ↓reduceIte]
  rw [onGrid?, both]
  exact List.find?_cons_of_pos (readsAs_of_whole units)

theorem topExponent_nonneg {m : Magnitude} (whole : one ∣ m.units) (nonzero : m.units ≠ 0) :
    0 ≤ topExponent m := by
  have large : tenPow 323 < tenPow (natDigits m.units).length :=
    Nat.lt_trans tenPow_lt_one (Nat.lt_of_le_of_lt
      (Nat.le_of_dvd (Nat.pos_of_ne_zero nonzero) whole) (lt_tenPow_length_natDigits m.units))
  have longer : 323 < (natDigits m.units).length := by
    refine Nat.lt_of_not_le fun short => Nat.not_lt.2 ?_ large
    exact tenPow_le_tenPow short
  rw [topExponent]
  omega

/-- The shortest decimal of a whole number has no digits after the point.  If it has no
zeros to add either, it is the number. -/
theorem shortest_of_whole {m : Magnitude} {n : Nat} (units : m.units = n * one) :
    ∃ digits k : Nat, shortest m = ⟨digits, k⟩ ∧ roundUnits (digits * tenPow k) 1 = n ∧
      (k = 0 → digits = n) := by
  have positive : 0 < one := twoPow_pos 1074
  rw [shortest]
  split
  next zero =>
    have none : n = 0 := by
      rw [units] at zero
      exact (Nat.mul_eq_zero.1 zero).resolve_right (Nat.ne_of_gt positive)
    subst none
    exact ⟨0, 0, rfl, roundUnits_one (Nat.dvd_zero _), fun _ => rfl⟩
  next nonzero =>
    have point := onGrid?_zero_of_whole units
    have whole : one ∣ m.units := units ▸ Nat.dvd_mul_left one n
    obtain ⟨⟨digits, e⟩, first, exponent, here⟩ :=
      exists_firstOnGrid point (by decide) (topExponent_nonneg whole nonzero)
    obtain ⟨k, rfl⟩ := Int.eq_ofNat_of_zero_le exponent
    refine ⟨digits, k, by rw [first]; rfl, ?_, ?_⟩
    · have reads := readsAs_of_onGrid? here
      rw [readsAs, beq_iff_eq] at reads
      have whole : (-((k : Nat) : Int)).toNat = 0 := by omega
      dsimp only at reads
      rw [Int.toNat_natCast, whole, tenPow_zero, Nat.mul_right_comm, roundUnits_mul_one,
        units] at reads
      exact Nat.eq_of_mul_eq_mul_right positive reads
    · rintro rfl
      rw [show ((0 : Nat) : Int) = 0 from rfl, point] at here
      cases here
      rfl

/-! ## Writing -/

theorem positionalDigits_of_natCast (digits k : Nat) :
    positionalDigits ⟨digits, k⟩ = natDigits digits ++ List.replicate k '0' ∧
      places ⟨digits, k⟩ = 0 := by
  have noPlaces : places ⟨digits, k⟩ = 0 := by
    rw [places]
    exact Int.toNat_eq_zero.2 (Int.neg_nonpos_of_nonneg (Int.natCast_nonneg k))
  have positive := List.length_pos_iff.2 (natDigits_ne_nil digits)
  have enough : 0 + 1 - (natDigits digits ++ List.replicate k '0').length = 0 := by
    rw [List.length_append]
    omega
  refine ⟨?_, noPlaces⟩
  rw [positionalDigits, noPlaces]
  simp only [Int.toNat_natCast, enough, List.replicate_zero, List.nil_append]

/-- A decimal without digits after the point is written as its digits, its zeros and the
ending. -/
theorem positional_of_natCast (ending : List Char) (digits k : Nat) :
    positional ending ⟨digits, k⟩ = natDigits digits ++ List.replicate k '0' ++ ending := by
  obtain ⟨all, noPlaces⟩ := positionalDigits_of_natCast digits k
  rw [positional, wholeDigits, fractionDigits, noPlaces, Nat.sub_zero, List.take_length,
    List.drop_length, all, afterPoint]

theorem write_integer_of_natCast (digits k : Nat) :
    write .integer ⟨digits, k⟩ = natDigits digits ++ List.replicate k '0' := by
  have written : write .integer ⟨digits, k⟩ = positional [] ⟨digits, k⟩ := rfl
  rw [written, positional_of_natCast, List.append_nil]

end Decimal

/-! ## Runs of digits -/

/-- A text that is read as one integer. -/
structure Spells (text : List Char) (n : Nat) : Prop where
  nonempty : text ≠ []
  digit : ∀ c ∈ text, c.isDigit = true
  value : digitsValue text = n

theorem digitsValue_append_zeros (text : List Char) (k : Nat) :
    digitsValue (text ++ List.replicate k '0') = digitsValue text * tenPow k := by
  rw [digitsValue, Nat.ofDigitChars_append, Nat.ofDigitChars_replicate_zero, Nat.mul_comm]
  rfl

theorem spells_natDigits_append_zeros (digits k : Nat) :
    Spells (natDigits digits ++ List.replicate k '0') (digits * tenPow k) where
  nonempty := List.append_ne_nil_of_left_ne_nil (natDigits_ne_nil digits) _
  digit c member := by
    rcases List.mem_append.1 member with digit | zero
    · exact isDigit_of_mem_natDigits digit
    · rw [List.eq_of_mem_replicate zero]
      rfl
  value := by rw [digitsValue_append_zeros, digitsValue_natDigits]

theorem ofDigitChars_lt {text : List Char} (all : ∀ c ∈ text, c.isDigit = true)
    (accumulator : Nat) :
    Nat.ofDigitChars 10 text accumulator < (accumulator + 1) * tenPow text.length := by
  induction text generalizing accumulator with
  | nil => simp
  | cons c text induction =>
    obtain ⟨first, others⟩ := List.forall_mem_cons.1 all
    have digit : c.toNat - '0'.toNat < 10 := by
      have upper : c.toNat ≤ 57 := (Char.isDigit_iff_toNat.1 first).2
      have zero : '0'.toNat = 48 := rfl
      omega
    have room : 10 * accumulator + (c.toNat - '0'.toNat) + 1 ≤ (accumulator + 1) * 10 := by omega
    rw [Nat.ofDigitChars_cons, List.length_cons, Nat.add_comm text.length, tenPow_add,
      ← Nat.mul_assoc]
    exact Nat.lt_of_lt_of_le (induction others _) (Nat.mul_le_mul_right _ room)

/-- A run of digits has enough of them for its size. -/
theorem Spells.lt_tenPow_length {text : List Char} {n : Nat} (spells : Spells text n) :
    n < tenPow text.length := by
  have bound := ofDigitChars_lt spells.digit 0
  rw [Nat.zero_add, Nat.one_mul] at bound
  exact spells.value ▸ bound

/-- The integer layout writes a whole number in digits alone, and they read back. -/
theorem exists_spells_shortest {m : Magnitude} (whole : one ∣ m.units) :
    ∃ n, Spells ((Decimal.shortest m).write .integer) n ∧ roundUnits (n * one) 1 = m.units := by
  obtain ⟨n, product⟩ := whole
  have units : m.units = n * one := product.trans (Nat.mul_comm one n)
  obtain ⟨digits, k, same, rounded, -⟩ := Decimal.shortest_of_whole units
  refine ⟨digits * tenPow k, ?_, ?_⟩
  · rw [same, Decimal.write_integer_of_natCast]
    exact spells_natDigits_append_zeros digits k
  · rw [roundUnits_mul_one, rounded, units]

/-! ## Whole numbers up to `2 ^ 53` -/

/-- Zeros at the end multiply a number by a power of ten. -/
theorem natDigits_mul_tenPow {n : Nat} (nonzero : n ≠ 0) (k : Nat) :
    natDigits (n * tenPow k) = natDigits n ++ List.replicate k '0' := by
  induction k with
  | zero => rw [tenPow_zero, Nat.mul_one, List.replicate_zero, List.append_nil]
  | succ k induction =>
    have positive : 0 < n * tenPow k := Nat.mul_pos (Nat.pos_of_ne_zero nonzero) (tenPow_pos k)
    have last : natDigits (n * tenPow k) ++ natDigits 0 = natDigits (10 * (n * tenPow k) + 0) :=
      Nat.toDigits_append_toDigits (by decide) positive (by decide)
    have scaled : n * tenPow (k + 1) = 10 * (n * tenPow k) + 0 := by
      rw [tenPow_add, ← Nat.mul_assoc, Nat.mul_comm (n * tenPow k)]
      rfl
    rw [scaled, ← last, induction, List.append_assoc, List.replicate_succ']
    rfl

namespace Decimal

variable {m : Magnitude} {n : Nat}

/-- No other decimal than the number itself is found for a whole number up to `2 ^ 53`. -/
theorem shortest_of_small (units : m.units = n * one) (fits : n ≤ twoPow 53) :
    ∃ digits k : Nat, shortest m = ⟨digits, k⟩ ∧ digits * tenPow k = n := by
  obtain ⟨digits, k, same, rounded, whole⟩ := shortest_of_whole units
  refine ⟨digits, k, same, ?_⟩
  rcases Binary64.eq_of_roundUnits_le (rounded ▸ fits) with small | middle
  · rwa [Binary64.roundUnits_of_le small] at rounded
  · -- The middle after `2 ^ 53` ends in no zero, and on the grid of whole numbers it is not
    -- looked at.
    cases k with
    | zero =>
      rw [tenPow_zero, Nat.mul_one]
      exact whole rfl
    | succ k =>
      have ten : tenPow (k + 1) = tenPow k * 10 := tenPow_add k 1
      have noZero : (twoPow 53 + 1) % 10 ≠ 0 := by decide +kernel
      rw [ten, ← Nat.mul_assoc] at middle
      exact absurd (middle ▸ Nat.mul_mod_left _ 10) noZero

/-- A whole number up to `2 ^ 53` is written as its digits. -/
theorem write_of_small (units : m.units = n * one) (fits : n ≤ twoPow 53) (nonzero : n ≠ 0) :
    (shortest m).write .integer = natDigits n ∧
      (shortest m).write .real = natDigits n ++ ['.', '0'] := by
  obtain ⟨digits, k, same, product⟩ := shortest_of_small units fits
  have some : digits ≠ 0 := by
    rintro rfl
    exact nonzero (product.symm.trans (Nat.zero_mul _))
  have written := natDigits_mul_tenPow some k
  rw [product] at written
  have short : (natDigits n).length ≤ 16 := by
    have small : n < tenPow 16 := Nat.lt_of_le_of_lt fits (by decide +kernel)
    exact (Nat.length_toDigits_le_iff (by decide) (by decide)).2 small
  have length := congrArg List.length written
  rw [List.length_append, List.length_replicate] at length
  have position : Layout.real.isPositional (pointPosition ⟨digits, k⟩) = true := by
    simp only [Layout.real, pointPosition, Bool.and_eq_true, decide_eq_true_eq]
    omega
  rw [same]
  constructor
  · rw [write_integer_of_natCast, written]
  · rw [write, if_pos position, positional_of_natCast, written]
    rfl

end Decimal

end LineCalc
