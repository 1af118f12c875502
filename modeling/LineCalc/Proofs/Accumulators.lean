import LineCalc.Proofs.Evaluation
import Mathlib.Data.List.Basic
import Mathlib.Data.List.Induction

/-!
# Accumulators

The accumulator is what the operators so far have made of the first integer of a line.  A step
of the fold applies the operator `a` in `before ++ a :: after` to `accumulator first before`.
`FoldsTo` says what a line folds when it comes to a number, and every such line folds something
(`exists_foldsTo`).

Some properties of the accumulator begin with steps of one kind and last through steps of
another.  Such a property holds at the end of the fold just if some step began it and all later
steps kept it (`accumulator_iff`).
-/

namespace LineCalc

/-- The accumulator after operators that were applied to the first integer. -/
def accumulator (first : Nat) (applications : List Application) : Binary64 :=
  (applyAll ⟨.ofNat first, false⟩ applications).value

/-- Every operator is applied to what those before it have made of the first integer, and none
is refused. -/
def AllApplied (first : Nat) (applications : List Application) : Prop :=
  ∀ before a after, applications = before ++ a :: after →
    a.op.apply (accumulator first before) (.ofNat a.operand) a.position =
      .ok (accumulator first (before ++ [a]))

/-- The line comes to a number by applying operators to its first integer. -/
structure FoldsTo (line : List Char) (number : Number) (first : Nat)
    (applications : List Application) : Prop where
  opens : ∃ rest, OpensWith line first applications rest
  applied : AllApplied first applications
  value : number.value = accumulator first applications
  /-- The number is marked as a real one just if a division is applied. -/
  real : number.real = true ↔ ∃ a ∈ applications, a.op = .div

/-! ## One more step -/

theorem applyAll_append (number : Number) (front back : List Application) :
    applyAll number (front ++ back) = applyAll (applyAll number front) back := by
  induction front generalizing number with
  | nil => rfl
  | cons a front induction => exact induction (number.extend a.op a.operand)

theorem accumulator_nil (first : Nat) : accumulator first [] = .ofNat first := by
  rw [accumulator, applyAll]

theorem accumulator_concat (first : Nat) (before : List Application) (a : Application) :
    accumulator first (before ++ [a]) =
      a.op.combine (accumulator first before) (.ofNat a.operand) := by
  rw [accumulator, applyAll_append]
  rfl

/-- Operators are all applied just if none of them divides by zero. -/
theorem allApplied_iff {first : Nat} {applications : List Application} :
    AllApplied first applications ↔ ∀ a ∈ applications, a.dividesByZero = false := by
  constructor
  · intro applied a membership
    obtain ⟨before, after, rfl⟩ := List.append_of_mem membership
    have step := applied before a after rfl
    rw [Operator.apply_eq] at step
    split at step
    next => cases step
    next defined => exact Application.dividesByZero_eq_false_iff.2 defined
  · rintro defined before a after rfl
    have accepted := defined a (List.mem_append_right before List.mem_cons_self)
    have applied := Application.dividesByZero_eq_false_iff.1 accepted
    rw [Operator.apply_eq, if_neg applied, accumulator_concat]

/-! ## Lines -/

/-- A line that comes to a number folds operators to it. -/
theorem exists_foldsTo {line : List Char} {number : Number}
    (evaluated : evaluate line = .ok number) :
    ∃ first applications, FoldsTo line number first applications := by
  obtain ⟨first, applications, rest, opens, defined, rfl, -⟩ := exists_opensWith evaluated
  have mark := real_applyAll ⟨.ofNat first, false⟩ applications
  refine ⟨first, applications, ⟨rest, opens⟩, allApplied_iff.2 defined, rfl, ?_⟩
  rw [mark]
  exact ⟨fun real => real.resolve_left Bool.false_ne_true, .inr⟩

/-- It folds nothing else. -/
theorem FoldsTo.eq {line : List Char} {number : Number} {first other : Nat}
    {applications others : List Application} {rest : List Item}
    (folds : FoldsTo line number first applications)
    (opens : OpensWith line other others rest) : first = other ∧ applications = others := by
  obtain ⟨left, again⟩ := folds.opens
  obtain ⟨firsts, same, -⟩ := again.unique opens
  exact ⟨firsts, same⟩

/-! ## Properties of the accumulator -/

/-- A property of the accumulator that the first integer does not have.  If a step gives it just
when it begins it, or keeps it, then the last accumulator has it just if a step began it and
all later ones kept it. -/
theorem accumulator_iff (Holds : Binary64 → Prop) (Begins : Binary64 → Application → Prop)
    (Keeps : Application → Prop) {first : Nat} {applications : List Application}
    (fresh : ¬Holds (.ofNat first))
    (step : ∀ a ∈ applications, ∀ left,
      Holds (a.op.combine left (.ofNat a.operand)) ↔ Begins left a ∨ Holds left ∧ Keeps a) :
    Holds (accumulator first applications) ↔
      ∃ before a after, applications = before ++ a :: after ∧
        Begins (accumulator first before) a ∧ ∀ b ∈ after, Keeps b := by
  -- From the end, where the last operator either began the property or kept it.
  induction applications using List.reverseRecOn with
  | nil => simp [accumulator_nil, fresh]
  | append_singleton front last induction =>
    obtain ⟨earlier, final⟩ := List.forall_mem_append.1 step
    rw [accumulator_concat, final last (List.mem_singleton_self last), induction earlier]
    constructor
    · rintro (begins | ⟨⟨before, a, after, rfl, begins, kept⟩, keeps⟩)
      · exact ⟨front, last, [], rfl, begins, List.forall_mem_nil _⟩
      · refine ⟨before, a, after ++ [last], by simp, begins, ?_⟩
        exact List.forall_mem_append.2 ⟨kept, List.forall_mem_singleton.2 keeps⟩
    · rintro ⟨before, a, after, same, begins, kept⟩
      rcases List.eq_nil_or_concat' after with rfl | ⟨middle, b, rfl⟩
      · obtain ⟨rfl, here⟩ := List.append_inj' same rfl
        cases here
        exact .inl begins
      · rw [← List.cons_append, ← List.append_assoc] at same
        obtain ⟨rfl, here⟩ := List.append_inj' same rfl
        cases here
        obtain ⟨later, keeps⟩ := List.forall_mem_append.1 kept
        have still := keeps last (List.mem_singleton_self last)
        exact .inr ⟨⟨before, a, middle, rfl, begins, later⟩, still⟩

end LineCalc
