import LineCalc.Proofs.Accumulators
import LineCalc.Proofs.NearestConversion

/-!
# Results that are not a number

An operation on numbers has no result in few cases: opposite infinities are added, zero and an
infinity are multiplied, or two infinities or two zeros are divided (`add_eq_nan_iff` and its
likes).  The operand on the right is a literal, hence never negative and infinite only by its
size, and a division by zero is refused; what is left are the steps called `Indeterminate`.

Every operation on NaN gives NaN, so a line comes to NaN just if one of its steps is
indeterminate (`evaluate_nan_iff`).
-/

namespace LineCalc

namespace Binary64

def isInfinite : Binary64 → Bool
  | .infinite _ => true
  | _ => false

/-! ## Operations without a result -/

variable {x y : Binary64}

theorem nearest_ne_nan (negative : Bool) (num den : Nat) : nearest negative num den ≠ .nan := by
  unfold nearest
  intro undefined
  split at undefined
  next => cases undefined
  next => cases undefined

theorem add_eq_nan_iff :
    x + y = .nan ↔ x = .nan ∨ y = .nan ∨ ∃ s, x = .infinite s ∧ y = .infinite (!s) := by
  change add x y = .nan ↔ _
  cases x with
  | nan => simp [add]
  | infinite s =>
    cases y with
    | nan => simp [add]
    | infinite t => cases s <;> cases t <;> simp [add]
    | finite t b => simp [add]
  | finite s a =>
    cases y with
    | nan => simp [add]
    | infinite t => simp [add]
    | finite t b =>
      have defined : add (.finite s a) (.finite t b) ≠ .nan := by
        rw [add]
        split
        · nofun
        · exact nearest_ne_nan _ _ _
      simp [defined]

theorem sub_eq_nan_iff :
    x - y = .nan ↔ x = .nan ∨ y = .nan ∨ ∃ s, x = .infinite s ∧ y = .infinite s := by
  change x + neg y = .nan ↔ _
  rw [add_eq_nan_iff]
  cases y <;> simp [neg]

theorem mul_eq_nan_iff :
    x * y = .nan ↔ x = .nan ∨ y = .nan ∨ x.isInfinite = true ∧ y.isZero = true ∨
      x.isZero = true ∧ y.isInfinite = true := by
  change mul x y = .nan ↔ _
  cases x with
  | nan => simp [mul]
  | infinite s => cases y <;> simp [mul, isInfinite, isZero]
  | finite s a =>
    cases y with
    | nan => simp [mul]
    | infinite t => simp [mul, isInfinite, isZero]
    | finite t b => simp [mul, isInfinite, nearest_ne_nan]

theorem div_eq_nan_iff :
    x / y = .nan ↔ x = .nan ∨ y = .nan ∨ x.isInfinite = true ∧ y.isInfinite = true ∨
      x.isZero = true ∧ y.isZero = true := by
  change div x y = .nan ↔ _
  cases x with
  | nan => simp [div]
  | infinite s => cases y <;> simp [div, isInfinite, isZero]
  | finite s a =>
    cases y with
    | nan => simp [div]
    | infinite t => simp [div, isInfinite, isZero]
    | finite t b =>
      rw [div]
      split
      next zero => split <;> simp_all [isInfinite, isZero]
      next nonzero => simp [nearest_ne_nan, isInfinite, isZero, nonzero]

/-! ## Literals -/

theorem ofNat_ne_nan (n : Nat) : ofNat n ≠ .nan := nearest_ne_nan false _ 1

/-- A literal is infinite by its size alone. -/
theorem ofNat_eq_infinite_iff_le {n : Nat} {negative : Bool} :
    ofNat n = .infinite negative ↔ negative = false ∧ leastInfinite ≤ n := by
  rw [leastInfinite_le_iff, ← ofNat_eq_infinite_iff]
  constructor
  · intro same
    have positive : negative = false := by
      rw [ofNat, nearest] at same
      split at same
      next => cases same
      next => cases same; rfl
    exact ⟨positive, positive ▸ same⟩
  · rintro ⟨rfl, same⟩
    exact same

theorem isInfinite_ofNat {n : Nat} : (ofNat n).isInfinite = true ↔ leastInfinite ≤ n := by
  constructor
  · intro infinite
    cases same : ofNat n with
    | nan => rw [same] at infinite; cases infinite
    | infinite s => exact (ofNat_eq_infinite_iff_le.1 same).2
    | finite s m => rw [same] at infinite; cases infinite
  · intro large
    rw [ofNat_eq_infinite_iff_le.2 ⟨rfl, large⟩]
    rfl

variable {n : Nat}

theorem add_ofNat_eq_nan_iff :
    x + ofNat n = .nan ↔ x = .infinite true ∧ leastInfinite ≤ n ∨ x = .nan := by
  rw [add_eq_nan_iff, or_comm]
  simp [ofNat_ne_nan, ofNat_eq_infinite_iff_le]

theorem sub_ofNat_eq_nan_iff :
    x - ofNat n = .nan ↔ x = .infinite false ∧ leastInfinite ≤ n ∨ x = .nan := by
  rw [sub_eq_nan_iff, or_comm]
  simp [ofNat_ne_nan, ofNat_eq_infinite_iff_le]

theorem mul_ofNat_eq_nan_iff :
    x * ofNat n = .nan ↔
      (x.isInfinite = true ∧ n = 0 ∨ x.isZero = true ∧ leastInfinite ≤ n) ∨ x = .nan := by
  rw [mul_eq_nan_iff, or_comm, isZero_ofNat, isInfinite_ofNat]
  simp [ofNat_ne_nan]

/-- A literal that is not zero makes NaN of no zero. -/
theorem div_ofNat_eq_nan_iff (nonzero : n ≠ 0) :
    x / ofNat n = .nan ↔ x.isInfinite = true ∧ leastInfinite ≤ n ∨ x = .nan := by
  rw [div_eq_nan_iff, or_comm, isZero_ofNat, isInfinite_ofNat]
  simp [ofNat_ne_nan, nonzero]

end Binary64

open Binary64 (leastInfinite)

/-! ## Steps without a result -/

/-- When an operator makes NaN of an accumulator that is a number, and a literal. -/
def Operator.Indeterminate (op : Operator) (left : Binary64) (n : Nat) : Prop :=
  match op with
  | add => left = .infinite true ∧ leastInfinite ≤ n
  | sub => left = .infinite false ∧ leastInfinite ≤ n
  | mul => left.isInfinite = true ∧ n = 0 ∨ left.isZero = true ∧ leastInfinite ≤ n
  | div => left.isInfinite = true ∧ leastInfinite ≤ n

/-- An operator that is not refused makes NaN of NaN and in the indeterminate cases. -/
theorem combine_eq_nan_iff {op : Operator} {n : Nat} (defined : op = .div → n ≠ 0)
    (left : Binary64) :
    op.combine left (.ofNat n) = .nan ↔ op.Indeterminate left n ∨ left = .nan := by
  cases op with
  | add => exact Binary64.add_ofNat_eq_nan_iff
  | sub => exact Binary64.sub_ofNat_eq_nan_iff
  | mul => exact Binary64.mul_ofNat_eq_nan_iff
  | div => exact Binary64.div_ofNat_eq_nan_iff (defined rfl)

/-- A literal of finite size is indeterminate only as a zero that an infinity is multiplied
by. -/
theorem Operator.Indeterminate.infiniteMul {op : Operator} {left : Binary64} {n : Nat}
    (step : op.Indeterminate left n) (small : n < leastInfinite) : op = .mul ∧ n = 0 := by
  have short := Nat.not_le.2 small
  cases op with
  | add => exact absurd step.2 short
  | sub => exact absurd step.2 short
  | mul =>
    rcases step with ⟨-, zero⟩ | ⟨-, large⟩
    · exact ⟨rfl, zero⟩
    · exact absurd large short
  | div => exact absurd step.2 short

theorem not_dividesByZero {a : Application} (defined : a.dividesByZero = false)
    (division : a.op = .div) : a.operand ≠ 0 := fun zero =>
  Application.dividesByZero_eq_false_iff.1 defined ⟨division, Binary64.isZero_ofNat.2 zero⟩

/-! ## Folds -/

theorem combine_nan (op : Operator) (right : Binary64) : op.combine .nan right = .nan := by
  cases op <;> rfl

/-- NaN is never left again. -/
theorem accumulator_append_of_nan {first : Nat} {before : List Application}
    (nan : accumulator first before = .nan) (later : List Application) :
    accumulator first (before ++ later) = .nan := by
  induction later using List.reverseRecOn with
  | nil => rwa [List.append_nil]
  | append_singleton later last induction =>
    rw [← List.append_assoc, accumulator_concat, induction, combine_nan]

/-- The accumulator is NaN just if a step was indeterminate. -/
theorem accumulator_eq_nan_iff {first : Nat} {applications : List Application}
    (defined : ∀ a ∈ applications, a.dividesByZero = false) :
    accumulator first applications = .nan ↔
      ∃ before a after, applications = before ++ a :: after ∧
        a.op.Indeterminate (accumulator first before) a.operand := by
  -- Every operator keeps NaN, so nothing is asked of the steps after the one that began it.
  have steps := accumulator_iff (· = .nan) (fun left a => a.op.Indeterminate left a.operand)
    (fun _ => True) (Binary64.ofNat_ne_nan first) fun a membership left => by
      rw [combine_eq_nan_iff (not_dividesByZero (defined a membership)), and_true]
  simpa using steps

/-- A line comes to NaN just if one of its steps is indeterminate: an infinity and a literal of
infinite size that cancel, an infinity times zero, a zero times such a literal, or an infinity
divided by one.  From then on the accumulator stays NaN.  A line whose operators have literals
of finite size and multiply by no zero does not come to NaN, even if its results overflow. -/
theorem evaluate_nan_iff {line : List Char} {number : Number}
    (evaluated : evaluate line = .ok number) :
    ∃ first applications, FoldsTo line number first applications ∧
      (number.value = .nan ↔ ∃ before a after, applications = before ++ a :: after ∧
        a.op.Indeterminate (accumulator first before) a.operand) ∧
      (∀ before later, before <+: later → later <+: applications →
        accumulator first before = .nan → accumulator first later = .nan) ∧
      ((∀ a ∈ applications, a.operand < leastInfinite) →
        (∀ a ∈ applications, a.op = .mul → a.operand ≠ 0) → number.value ≠ .nan) := by
  obtain ⟨first, applications, folds⟩ := exists_foldsTo evaluated
  have steps : number.value = .nan ↔ _ :=
    folds.value ▸ accumulator_eq_nan_iff (allApplied_iff.1 folds.applied)
  refine ⟨first, applications, folds, steps, ?_, ?_⟩
  · rintro before later ⟨rest, rfl⟩ - nan
    exact accumulator_append_of_nan nan rest
  · intro small noZero nan
    obtain ⟨before, a, after, rfl, step⟩ := steps.1 nan
    have member : a ∈ before ++ a :: after := List.mem_append_right before List.mem_cons_self
    obtain ⟨times, zero⟩ := step.infiniteMul (small a member)
    exact noZero a member times zero

/-- A product that overflows, multiplied by zero. -/
theorem evaluate_nan_iff_overflow :
    ∃ number, evaluate (List.replicate 160 '9' ++ '*' :: List.replicate 160 '9' ++ ['*', '0']) =
      .ok number ∧ number.value = .nan := by
  have opens : OpensWith
      (List.replicate 160 '9' ++ '*' :: List.replicate 160 '9' ++ ['*', '0']) (10 ^ 160 - 1)
      [⟨.mul, 161, 10 ^ 160 - 1, 162⟩, ⟨.mul, 322, 0, 323⟩] [] := ⟨⟨1, by decide +kernel⟩, rfl⟩
  have evaluated := opens.evaluate_eq (by decide +kernel)
  obtain ⟨first, applications, folds, steps, -⟩ := evaluate_nan_iff evaluated
  obtain ⟨rfl, rfl⟩ := folds.eq opens
  have infinite : (accumulator (10 ^ 160 - 1) [⟨.mul, 161, 10 ^ 160 - 1, 162⟩]).isInfinite =
      true := by decide +kernel
  have step : Operator.mul.Indeterminate (accumulator (10 ^ 160 - 1) _) 0 := .inl ⟨infinite, rfl⟩
  exact ⟨_, evaluated, steps.2 ⟨_, ⟨.mul, 322, 0, 323⟩, [], rfl, step⟩⟩

end LineCalc
