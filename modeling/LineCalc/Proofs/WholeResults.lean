import LineCalc.Proofs.Conversion
import LineCalc.Proofs.Evaluation

/-!
# Whole results

Without a division a line comes to a whole number, an infinity or NaN: a whole number
is rounded to a whole number, whatever its size, and sums, differences and products of
whole numbers are whole (`isWhole_of_evaluate`).
-/

namespace LineCalc

namespace Binary64

/-- A number that is whole if it is finite. -/
def IsWhole (x : Binary64) : Prop :=
  ∀ (negative : Bool) (m : Magnitude), x = .finite negative m → one ∣ m.units

theorem isWhole_nan : IsWhole .nan := by
  intro s m same
  cases same

theorem isWhole_infinite (negative : Bool) : IsWhole (.infinite negative) := by
  intro s m same
  cases same

theorem isWhole_finite {m : Magnitude} (whole : one ∣ m.units) (negative : Bool) :
    IsWhole (.finite negative m) := by
  intro s n same
  cases same
  exact whole

theorem isWhole_nearest_one (negative : Bool) {num : Nat} (whole : one ∣ num) :
    IsWhole (nearest negative num 1) := by
  intro s m same
  obtain ⟨n, product⟩ := whole
  rw [← units_of_nearest_eq_finite same, product, Nat.mul_comm, roundUnits_mul_one]
  exact Nat.dvd_mul_left one _

theorem isWhole_ofNat (n : Nat) : IsWhole (ofNat n) :=
  isWhole_nearest_one false (Nat.dvd_mul_left one _)

theorem isWhole_neg {x : Binary64} (whole : IsWhole x) : IsWhole (neg x) := by
  cases x with
  | nan => exact isWhole_nan
  | infinite s => exact isWhole_infinite _
  | finite s m => exact isWhole_finite (whole s m rfl) _

theorem one_dvd_signed {m : Magnitude} (whole : one ∣ m.units) (negative : Bool) :
    (one : Int) ∣ m.signed negative := by
  have units : (one : Int) ∣ (m.units : Int) := Int.natCast_dvd_natCast.2 whole
  rw [Magnitude.signed]
  split
  · exact Int.dvd_neg.2 units
  · exact units

theorem isWhole_add {x y : Binary64} (first : IsWhole x) (second : IsWhole y) :
    IsWhole (add x y) := by
  unfold add
  split
  next => exact isWhole_nan
  next => exact isWhole_nan
  next =>
    split
    · exact isWhole_infinite _
    · exact isWhole_nan
  next => exact isWhole_infinite _
  next => exact isWhole_infinite _
  next s a t b =>
    have total := Int.dvd_add (one_dvd_signed (first s a rfl) s) (one_dvd_signed (second t b rfl) t)
    dsimp only
    split
    · exact isWhole_finite (Nat.dvd_zero one) _
    · exact isWhole_nearest_one _ (Int.natCast_dvd_natCast.1 (Int.dvd_natAbs.2 total))

theorem isWhole_sub {x y : Binary64} (first : IsWhole x) (second : IsWhole y) :
    IsWhole (sub x y) :=
  isWhole_add first (isWhole_neg second)

theorem nearest_mul_one (negative : Bool) (num : Nat) :
    nearest negative (num * one) one = nearest negative num 1 := by
  have scaled := nearest_mul_right negative num 1 (twoPow_pos 1074)
  rwa [Nat.one_mul] at scaled

theorem isWhole_mul {x y : Binary64} (first : IsWhole x) (second : IsWhole y) :
    IsWhole (mul x y) := by
  unfold mul
  split
  next => exact isWhole_nan
  next => exact isWhole_nan
  next => exact isWhole_infinite _
  next =>
    split
    · exact isWhole_nan
    · exact isWhole_infinite _
  next =>
    split
    · exact isWhole_nan
    · exact isWhole_infinite _
  next s a t b =>
    obtain ⟨k, units⟩ := second t b rfl
    -- The scale that one factor brings in is divided out by the rounding.
    have product : a.units * b.units = a.units * k * one := by
      rw [units, Nat.mul_comm one, Nat.mul_assoc]
    rw [product, nearest_mul_one]
    exact isWhole_nearest_one _ (Nat.dvd_mul_right_of_dvd (first s a rfl) k)

end Binary64

/-! ## Results -/

open Binary64 (IsWhole)

theorem isWhole_extend {number : Number} (whole : IsWhole number.value) {op : Operator}
    (noDivision : op ≠ .div) (n : Nat) : IsWhole (number.extend op n).value := by
  have operand := Binary64.isWhole_ofNat n
  cases op with
  | add => exact Binary64.isWhole_add whole operand
  | sub => exact Binary64.isWhole_sub whole operand
  | mul => exact Binary64.isWhole_mul whole operand
  | div => exact absurd rfl noDivision

theorem isWhole_applyAll {number : Number} (whole : IsWhole number.value)
    {applications : List Application} (noDivision : ∀ a ∈ applications, a.op ≠ .div) :
    IsWhole (applyAll number applications).value := by
  induction applications generalizing number with
  | nil => exact whole
  | cons a rest induction =>
    obtain ⟨first, others⟩ := List.forall_mem_cons.1 noDivision
    exact induction (isWhole_extend whole first a.operand) others

theorem isWhole_of_no_division {first : Nat} {applications : List Application}
    (noDivision : ∀ a ∈ applications, a.op ≠ .div) :
    IsWhole (applyAll ⟨.ofNat first, false⟩ applications).value := by
  refine isWhole_applyAll ?_ noDivision
  dsimp only
  exact Binary64.isWhole_ofNat first

/-- A result that no division went into is whole if it is finite. -/
theorem isWhole_of_evaluate {line : List Char} {number : Number}
    (evaluated : evaluate line = .ok number) (integer : number.real = false) :
    IsWhole number.value := by
  obtain ⟨first, applications, rest, -, -, rfl, -⟩ := exists_opensWith evaluated
  exact isWhole_of_no_division ((real_applyAll_eq_false_iff _ _).1 integer)

end LineCalc
