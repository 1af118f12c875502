import LineCalc.Proofs.Accumulators
import LineCalc.Proofs.Displays
import LineCalc.Proofs.TypedBack

/-!
# Negative zeros

The sign of a zero is not seen by comparing numbers, but it is shown.  Without a division there
is one way to come to a zero with a minus: a number below zero is multiplied by zero.  A sum is
a negative zero only if both summands are (`add_eq_negativeZero_iff`), and a product with a
literal only if a factor is zero, since a literal is whole and nothing is lost in the rounding
(`mul_eq_negativeZero_iff`).

Afterwards the minus lasts as long as it is multiplied by literals of finite size and zero is
subtracted from it, so the last accumulator has it just if it was made by some step and kept by
all later ones (`accumulator_eq_negativeZero_iff`).
-/

namespace LineCalc

namespace Binary64

/-- Zero with a minus. -/
def negativeZero : Binary64 := .finite true .zero

/-- A number is finite and below zero, as neither a negative zero nor an infinity is. -/
def isNegative : Binary64 → Bool
  | .finite true m => m.units != 0
  | _ => false

/-! ## Operations that come to a negative zero -/

variable {x y : Binary64} {n : Nat}

theorem finite_eq_negativeZero_iff {negative : Bool} {m : Magnitude} :
    finite negative m = negativeZero ↔ negative = true ∧ m.units = 0 := by
  rw [negativeZero, finite.injEq, Magnitude.units_eq_zero_iff]

theorem nearest_one_eq_negativeZero_iff {negative : Bool} :
    nearest negative n 1 = negativeZero ↔ negative = true ∧ n = 0 := by
  rw [← roundUnits_one_eq_zero_iff, nearest]
  split
  next => exact finite_eq_negativeZero_iff
  next large =>
    have positive := limit_pos
    constructor
    · intro same
      cases same
    · rintro ⟨-, zero⟩
      omega

theorem add_eq_negativeZero_iff :
    x + y = negativeZero ↔ x = negativeZero ∧ y = negativeZero := by
  change add x y = negativeZero ↔ _
  cases x with
  | nan => simp [add, negativeZero]
  | infinite s =>
    cases y with
    | nan => simp [add, negativeZero]
    | infinite t => cases s <;> cases t <;> simp [add, negativeZero]
    | finite t b => simp [add, negativeZero]
  | finite s a =>
    cases y with
    | nan => simp [add, negativeZero]
    | infinite t => simp [add, negativeZero]
    | finite t b =>
      rw [add, finite_eq_negativeZero_iff, finite_eq_negativeZero_iff]
      split
      next none =>
        rw [finite_eq_negativeZero_iff, Bool.and_eq_true]
        constructor
        -- Two summands with a minus do not cancel, so both are zero.
        · rintro ⟨⟨rfl, rfl⟩, -⟩
          have total : -(a.units : Int) + -(b.units : Int) = 0 := none
          exact ⟨⟨rfl, by omega⟩, rfl, by omega⟩
        · rintro ⟨⟨rfl, -⟩, rfl, -⟩
          exact ⟨⟨rfl, rfl⟩, rfl⟩
      next some =>
        rw [nearest_one_eq_negativeZero_iff]
        constructor
        · rintro ⟨-, zero⟩
          exact absurd (Int.natAbs_eq_zero.1 zero) some
        · rintro ⟨⟨rfl, first⟩, rfl, second⟩
          have total : ¬-(a.units : Int) + -(b.units : Int) = 0 := some
          omega

/-- A product with an infinity or NaN is no zero. -/
theorem exists_of_mul_eq_negativeZero (product : x * y = negativeZero) :
    ∃ s a t b, x = finite s a ∧ y = finite t b := by
  change mul x y = negativeZero at product
  cases x with
  | nan => cases product
  | infinite s =>
    cases y with
    | nan => cases product
    | infinite t => cases product
    | finite t b =>
      rw [mul] at product
      split at product <;> cases product
  | finite s a =>
    cases y with
    | nan => cases product
    | infinite t =>
      rw [mul] at product
      split at product <;> cases product
    | finite t b => exact ⟨s, a, t, b, rfl, rfl⟩

/-- A product with a whole number is not rounded to zero. -/
theorem mul_eq_negativeZero_iff {s t : Bool} {a b : Magnitude} (whole : one ∣ b.units) :
    finite s a * finite t b = negativeZero ↔
      (s ^^ t) = true ∧ (a.units = 0 ∨ b.units = 0) := by
  obtain ⟨k, units⟩ := whole
  have product : a.units * b.units = a.units * k * one := by
    rw [units, Nat.mul_comm one, Nat.mul_assoc]
  have scale : one ≠ 0 := Nat.ne_of_gt (twoPow_pos 1074)
  change mul (finite s a) (finite t b) = negativeZero ↔ _
  rw [mul, product, nearest_mul_one, nearest_one_eq_negativeZero_iff, Nat.mul_eq_zero, units,
    Nat.mul_eq_zero, or_iff_right scale]

/-! ## Literals on the right -/

theorem ofNat_ne_negativeZero (n : Nat) : ofNat n ≠ negativeZero := by
  rcases ofNat_eq n with same | ⟨m, same⟩
  · rw [same]
    nofun
  · rw [same]
    nofun

theorem add_ofNat_ne_negativeZero : x + ofNat n ≠ negativeZero := fun same =>
  ofNat_ne_negativeZero n (add_eq_negativeZero_iff.1 same).2

theorem neg_eq_negativeZero_iff : neg y = negativeZero ↔ y = zero := by
  cases y with
  | nan => simp [neg, negativeZero, zero]
  | infinite s => simp [neg, negativeZero, zero]
  | finite s m => simp [neg, negativeZero, zero]

theorem ofNat_eq_zero_iff : ofNat n = zero ↔ n = 0 := by
  constructor
  · intro same
    rw [← isZero_ofNat, same]
    rfl
  · rintro rfl
    exact ofNat_zero

theorem sub_ofNat_eq_negativeZero_iff :
    x - ofNat n = negativeZero ↔ x = negativeZero ∧ n = 0 := by
  change x + neg (ofNat n) = negativeZero ↔ _
  rw [add_eq_negativeZero_iff, neg_eq_negativeZero_iff, ofNat_eq_zero_iff]

theorem ofNat_eq_of_isFinite (finite : (ofNat n).isFinite = true) :
    ∃ m, ofNat n = .finite false m := by
  rcases ofNat_eq n with same | some
  · rw [same] at finite
    cases finite
  · exact some

theorem exists_of_isNegative (below : x.isNegative = true) : ∃ m, x = finite true m := by
  cases x with
  | nan => cases below
  | infinite s => cases below
  | finite s m =>
    cases s with
    | false => cases below
    | true => exact ⟨m, rfl⟩

theorem mul_ofNat_eq_negativeZero_iff :
    x * ofNat n = negativeZero ↔
      x.isNegative = true ∧ n = 0 ∨ x = negativeZero ∧ (ofNat n).isFinite = true := by
  have zeros := isZero_ofNat (n := n)
  have whole := isWhole_ofNat n
  constructor
  · intro product
    obtain ⟨s, a, t, b, rfl, literal⟩ := exists_of_mul_eq_negativeZero product
    -- A literal has no minus, so the sign of the product is that of the left factor.
    have positive : t = false := by
      rcases ofNat_eq n with same | ⟨m, same⟩ <;> cases same.symm.trans literal
      rfl
    subst positive
    rw [literal] at product zeros whole ⊢
    rw [isZero, beq_iff_eq] at zeros
    rw [mul_eq_negativeZero_iff (whole false b rfl), Bool.xor_false, zeros] at product
    obtain ⟨rfl, factor⟩ := product
    by_cases none : a.units = 0
    · exact .inr ⟨finite_eq_negativeZero_iff.2 ⟨rfl, none⟩, rfl⟩
    · exact .inl ⟨bne_iff_ne.2 none, factor.resolve_left none⟩
  · rintro (⟨below, rfl⟩ | ⟨rfl, finite⟩)
    · obtain ⟨a, rfl⟩ := exists_of_isNegative below
      rw [ofNat_zero]
      exact (mul_eq_negativeZero_iff (Nat.dvd_zero one)).2 ⟨rfl, .inr rfl⟩
    · obtain ⟨b, same⟩ := ofNat_eq_of_isFinite finite
      rw [same] at whole ⊢
      exact (mul_eq_negativeZero_iff (whole false b rfl)).2 ⟨rfl, .inl rfl⟩

end Binary64

open Binary64 (negativeZero)

/-! ## Steps -/

/-- A step that multiplies a number below zero by zero. -/
def MakesNegativeZero (left : Binary64) (a : Application) : Prop :=
  a.op = .mul ∧ left.isNegative = true ∧ a.operand = 0

/-- A step that multiplies by a literal of finite size, or subtracts zero. -/
def KeepsNegativeZero (a : Application) : Prop :=
  a.op = .mul ∧ (Binary64.ofNat a.operand).isFinite = true ∨ a.op = .sub ∧ a.operand = 0

/-- Some step makes a negative zero, and all later ones keep it. -/
def ComesToNegativeZero (first : Nat) (applications : List Application) : Prop :=
  ∃ before a after, applications = before ++ a :: after ∧
    MakesNegativeZero (accumulator first before) a ∧ ∀ b ∈ after, KeepsNegativeZero b

theorem combine_eq_negativeZero_iff {a : Application} (noDivision : a.op ≠ .div)
    (left : Binary64) :
    a.op.combine left (.ofNat a.operand) = negativeZero ↔
      MakesNegativeZero left a ∨ left = negativeZero ∧ KeepsNegativeZero a := by
  rw [MakesNegativeZero, KeepsNegativeZero]
  cases op : a.op with
  | add => simp [Operator.combine, Binary64.add_ofNat_ne_negativeZero]
  | sub => simp [Operator.combine, Binary64.sub_ofNat_eq_negativeZero_iff]
  | mul => simp [Operator.combine, Binary64.mul_ofNat_eq_negativeZero_iff]
  | div => exact absurd op noDivision

/-- Without a division the last accumulator is a negative zero just if one was made and kept. -/
theorem accumulator_eq_negativeZero_iff {first : Nat} {applications : List Application}
    (noDivision : ∀ a ∈ applications, a.op ≠ .div) :
    accumulator first applications = negativeZero ↔ ComesToNegativeZero first applications :=
  accumulator_iff (· = negativeZero) MakesNegativeZero KeepsNegativeZero
    (Binary64.ofNat_ne_negativeZero first) fun a membership =>
      combine_eq_negativeZero_iff (noDivision a membership)

/-! ## What is shown -/

theorem Binary64.eq_of_isZero {x : Binary64} (none : x.isZero = true) :
    x = zero ∨ x = negativeZero := by
  cases x with
  | nan => cases none
  | infinite s => cases none
  | finite s m =>
    obtain rfl := Magnitude.units_eq_zero_iff.1 (beq_iff_eq.1 none)
    cases s
    · exact .inl rfl
    · exact .inr rfl

namespace Number

variable {number : Number}

/-- A whole result without the mark shows a minus before a zero just if it is a negative zero. -/
theorem display_eq_minus_zero_iff (marked : number.WellMarked) (integer : number.real = false) :
    number.display = "-0" ↔ number.value = negativeZero := by
  have shows : display ⟨negativeZero, false⟩ = "-0" := by decide +kernel
  constructor
  · intro same
    have finite : number.value.isFinite = true := by
      obtain ⟨value, real⟩ := number
      cases value with
      | nan => exact absurd same (by cases real <;> decide)
      | infinite s => exact absurd same (by cases real <;> cases s <;> decide)
      | finite s m => rfl
    have whole : WellMarked ⟨negativeZero, false⟩ := fun _ =>
      Binary64.isWhole_finite (Nat.dvd_zero _) true
    exact congrArg value (eq_of_display_eq finite rfl marked whole (same.trans shows.symm))
  · intro same
    obtain ⟨value, real⟩ := number
    cases same
    cases integer
    exact shows

/-- Any other zero without the mark is shown as a digit alone. -/
theorem display_eq_zero (integer : number.real = false) (none : number.value.isZero = true)
    (other : number.value ≠ negativeZero) : number.display = "0" := by
  obtain ⟨value, real⟩ := number
  cases integer
  obtain rfl := (Binary64.eq_of_isZero none).resolve_right other
  decide +kernel

end Number

/-! ## Lines -/

/-- A line without a division shows a minus before a zero just if some step multiplies a finite
accumulator below zero by zero, and every later step multiplies by a literal of finite size or
subtracts zero.  In every other case a zero is shown without a minus. -/
theorem evaluate_shows_minus_zero_iff {line : List Char} {number : Number}
    (evaluated : evaluate line = .ok number) :
    ∃ first applications, FoldsTo line number first applications ∧
      ((∀ a ∈ applications, a.op ≠ .div) →
        (number.display = "-0" ↔ ComesToNegativeZero first applications) ∧
        (number.value.isZero = true → ¬ComesToNegativeZero first applications →
          number.display = "0")) := by
  obtain ⟨first, applications, folds⟩ := exists_foldsTo evaluated
  refine ⟨first, applications, folds, fun noDivision => ?_⟩
  have integer : number.real = false := by
    rw [Bool.eq_false_iff, ne_eq, folds.real]
    rintro ⟨a, membership, division⟩
    exact noDivision a membership division
  have comes : number.value = negativeZero ↔ ComesToNegativeZero first applications :=
    folds.value ▸ accumulator_eq_negativeZero_iff noDivision
  constructor
  · exact (Number.display_eq_minus_zero_iff (wellMarked_of_evaluate evaluated) integer).trans comes
  · intro none other
    exact Number.display_eq_zero integer none (mt comes.1 other)

/-- A negative zero that is multiplied and that zero is subtracted from. -/
theorem evaluate_shows_minus_zero_iff_kept :
    ∃ number, evaluate "2-5*00*3-0 7".toList = .ok number ∧ number.display = "-0" := by
  have opens : OpensWith "2-5*00*3-0 7".toList 2
      [⟨.sub, 2, 5, 3⟩, ⟨.mul, 4, 0, 5⟩, ⟨.mul, 7, 3, 8⟩, ⟨.sub, 9, 0, 10⟩] [⟨.integer 7, 12⟩] :=
    ⟨⟨1, by decide +kernel⟩, rfl⟩
  have evaluated := opens.evaluate_eq (by decide +kernel)
  obtain ⟨first, applications, folds, shown⟩ := evaluate_shows_minus_zero_iff evaluated
  obtain ⟨rfl, rfl⟩ := folds.eq opens
  have below : (accumulator 2 [⟨.sub, 2, 5, 3⟩]).isNegative = true := by decide +kernel
  have kept : ∀ b ∈ [⟨.mul, 7, 3, 8⟩, ⟨.sub, 9, 0, 10⟩], KeepsNegativeZero b :=
    List.forall_mem_cons.2 ⟨.inl ⟨rfl, by decide +kernel⟩,
      List.forall_mem_singleton.2 (.inr ⟨rfl, rfl⟩)⟩
  have comes : ComesToNegativeZero 2 _ :=
    ⟨[⟨.sub, 2, 5, 3⟩], ⟨.mul, 4, 0, 5⟩, _, rfl, ⟨rfl, below, rfl⟩, kept⟩
  exact ⟨_, evaluated, (shown (by decide)).1.2 comes⟩

end LineCalc
