import Dicebox.Proofs.Accounts
import Dicebox.Proofs.Numbering

/-!
# The sum of the constants

The line that shows a roll gives the sum of its constants. This sum is taken over the table of the
constants, in the order of the keys, and it saturates on the way. It is the exact sum when the
running sums *in this order* are amounts; those in the written order say nothing about it, unless
the two orders agree, as they do up to nine constants. What the table records of a constant is
exact too, but for the smallest amount behind a minus, whose opposite is no amount.

## Main results

* `Modifiers.total_ofConstants` — the sum is taken in the order of the keys.
* `Expression.roll_modifiers_total` — when the sum that is shown is exact.
* `Expression.roll_modifiers_total_ne` — ten constants, and two, whose sum is shown wrong.
-/

namespace Dicebox

/-! ### Sums over the table -/

/-- The sum over the table of constants is that of the constants in the order of their keys. -/
theorem Modifiers.total_ofConstants (constants : List Amount) :
    (ofConstants constants).total = (inKeyOrder constants).foldl Amount.plus 0 := by
  rw [← map_snd_entries_ofConstants, List.foldl_map]
  rfl

/-- The sum over the table of constants is exact if the running sums in the order of the keys are
amounts. -/
theorem Modifiers.toInt_total_ofConstants {constants : List Amount}
    (h : Amount.RunFits (inKeyOrder (constants.map Int64.toInt))) :
    (ofConstants constants).total.toInt = (constants.map Int64.toInt).sum := by
  have hfold : (inKeyOrder constants).foldl Amount.plus 0 =
      (inKeyOrder (constants.map Int64.toInt)).foldl
        (fun sum value => .nearest (sum.toInt + value)) 0 := by
    rw [inKeyOrder_map, List.foldl_map]
    rfl
  rw [total_ofConstants, hfold, Amount.toInt_foldl_nearest_zero h]
  exact (inKeyOrder_perm _).sum_eq

/-! ### What is recorded -/

/-- What is recorded of the constants are the constants with their signs, unless the smallest
amount stands behind a minus. -/
theorem map_toInt_constants {terms : List Operand} {rolled : List Contribution}
    (h : List.Forall₂ Contributes terms rolled)
    (hsmallest : .constant .minus Int64.minValue ∉ terms) :
    (rolled.filterMap Contribution.constant?).map Int64.toInt =
      terms.filterMap Operand.constant? := by
  induction h with
  | nil => rfl
  | cons hfirst _ ih =>
      obtain ⟨hne, hmore⟩ := List.ne_and_not_mem_of_not_mem_cons hsmallest
      cases hfirst with
      | @constant op value =>
          have hsigned : (op.signed value).toInt = op.sign value.toInt := by
            refine Operator.toInt_signed ?_
            rintro ⟨rfl, rfl⟩
            exact hne rfl
          simp only [List.filterMap_cons, Contribution.constant?, Operand.constant?,
            List.map_cons, hsigned, ih hmore]
      | dice => exact ih hmore

/-- **When the sum that is shown is exact.** The sum over the table of an outcome is the exact sum
of the constants of the expression, each with the sign of the operator directly before it, and
this is the number in the line that shows the roll. It takes that no smallest amount stands behind
a minus, and that the running sums are amounts in the order of the keys; for nine constants or
fewer this is the written order. -/
theorem Expression.roll_modifiers_total {build : Build} {σ : Type} [DieSource σ]
    {expression : Expression} {source left : σ} {outcome : Outcome}
    (h : (expression.roll build).run source = (.ok outcome, left))
    (hsmallest : .constant .minus Int64.minValue ∉ operands expression.terms)
    (hrun : Amount.RunFits (Modifiers.inKeyOrder (signedConstants expression.terms)) ∨
      (signedConstants expression.terms).length ≤ 9 ∧
        Amount.RunFits (signedConstants expression.terms)) :
    outcome.modifiers.total.toInt = (signedConstants expression.terms).sum ∧
      outcome.output = expression.written ++ ": [" ++
        ", ".intercalate (outcome.rolls.map fun value => value.toNat.repr) ++ "] (" ++
        Text.signed (signedConstants expression.terms).sum ++ ") = " ++ outcome.total.text := by
  obtain ⟨draws, hyields, -⟩ := Rolling.run_eq_ok_iff.mp h
  obtain ⟨hformed, rolled, hrolled, rfl⟩ := Expression.yields_roll_iff.mp hyields
  have hrecorded : (rolled.filterMap Contribution.constant?).map Int64.toInt =
      signedConstants expression.terms :=
    map_toInt_constants (hformed.contributes hrolled) hsmallest
  have hkeys : Amount.RunFits (Modifiers.inKeyOrder (signedConstants expression.terms)) := by
    rcases hrun with hrun | ⟨hlength, hrun⟩
    · exact hrun
    · rwa [Modifiers.inKeyOrder_of_length_le hlength]
  rw [← hrecorded] at hkeys
  have htotal := Modifiers.toInt_total_ofConstants hkeys
  rw [hrecorded] at htotal
  refine ⟨htotal, ?_⟩
  rw [← htotal]
  rfl

/-- Ten constants, whose running sums are amounts in the order of the keys, and two constants
with a die between them, whose running sums are amounts as they are written. -/
theorem Expression.roll_modifiers_total_of_ten :
    (∃ (expression : Expression) (outcome : Outcome),
      parse {} "1+2+3+4+5+6+7+8+9-100" = .ok expression ∧
      expression.roll.run (⟨[]⟩ : Replay) = (.ok outcome, ⟨[]⟩) ∧
      outcome.modifiers.total.toInt = -55) ∧
    ∃ (expression : Expression) (outcome : Outcome),
      parse {} "9223372036854775807-d6-9" = .ok expression ∧
      expression.roll.run (⟨[4]⟩ : Replay) = (.ok outcome, ⟨[]⟩) ∧
      outcome.modifiers.total.toInt = 9223372036854775798 := by
  constructor
  · let expression : Expression :=
      ⟨"1+2+3+4+5+6+7+8+9-100", [.constant 1, .operator .plus, .constant 2, .operator .plus,
        .constant 3, .operator .plus, .constant 4, .operator .plus, .constant 5,
        .operator .plus, .constant 6, .operator .plus, .constant 7, .operator .plus,
        .constant 8, .operator .plus, .constant 9, .operator .minus, .constant 100]⟩
    let outcome : Outcome := .ofContributions expression.written
      [.constant .plus 1, .constant .plus 2, .constant .plus 3, .constant .plus 4,
        .constant .plus 5, .constant .plus 6, .constant .plus 7, .constant .plus 8,
        .constant .plus 9, .constant .minus 100]
    have hrun : expression.roll.run (⟨[]⟩ : Replay) = (.ok outcome, ⟨[]⟩) := rfl
    refine ⟨expression, outcome, by decide +kernel, hrun, ?_⟩
    have hkeys : Amount.RunFits (Modifiers.inKeyOrder (signedConstants expression.terms)) :=
      Amount.runFits_of_sum_natAbs_le <| by
        rw [((Modifiers.inKeyOrder_perm _).map Int.natAbs).sum_eq]
        decide
    exact (Expression.roll_modifiers_total hrun (by decide) (.inl hkeys)).1
  · let expression : Expression :=
      ⟨"9223372036854775807-d6-9", [.constant Int64.maxValue, .operator .minus,
        .dice ⟨1, 6, [], by decide⟩, .operator .minus, .constant 9]⟩
    let outcome : Outcome := .ofContributions expression.written
      [.constant .plus Int64.maxValue, .dice .minus ⟨6, [⟨6, 4, true⟩]⟩, .constant .minus 9]
    have hrun : expression.roll.run (⟨[4]⟩ : Replay) = (.ok outcome, ⟨[]⟩) := by
      decide +kernel
    refine ⟨expression, outcome, by decide +kernel, hrun, ?_⟩
    exact (Expression.roll_modifiers_total hrun (by decide) (.inr ⟨by decide, by decide⟩)).1

/-- The running sums of ten constants are amounts as they are written, and add up to one; but the
tenth is added as the second one, and what saturates there is missing in the end. And the smallest
amount behind a minus is recorded as the largest, which is one less than its opposite. -/
theorem Expression.roll_modifiers_total_ne :
    (∃ (expression : Expression) (outcome : Outcome),
      parse {} "9223372036854775807-9223372036854775807+0+0+0+0+0+0+0+1" = .ok expression ∧
      expression.roll.run (⟨[]⟩ : Replay) = (.ok outcome, ⟨[]⟩) ∧
      Amount.RunFits (signedConstants expression.terms) ∧
      (signedConstants expression.terms).sum = 1 ∧ outcome.modifiers.total.toInt = 0 ∧
      outcome.output =
        "9223372036854775807-9223372036854775807+0+0+0+0+0+0+0+1: [] (+0) = 1") ∧
    ∃ (expression : Expression) (outcome : Outcome),
      expression.text = "-1--9223372036854775808" ∧
      expression.roll.run (⟨[]⟩ : Replay) = (.ok outcome, ⟨[]⟩) ∧
      Amount.RunFits (signedConstants expression.terms) ∧
      (signedConstants expression.terms).sum = 9223372036854775807 ∧
      outcome.modifiers.total.toInt = 9223372036854775806 := by
  constructor
  · let expression : Expression :=
      ⟨"9223372036854775807-9223372036854775807+0+0+0+0+0+0+0+1",
        [.constant Int64.maxValue, .operator .minus, .constant Int64.maxValue,
          .operator .plus, .constant 0, .operator .plus, .constant 0, .operator .plus,
          .constant 0, .operator .plus, .constant 0, .operator .plus, .constant 0,
          .operator .plus, .constant 0, .operator .plus, .constant 0, .operator .plus,
          .constant 1]⟩
    let outcome : Outcome := .ofContributions expression.written
      [.constant .plus Int64.maxValue, .constant .minus Int64.maxValue, .constant .plus 0,
        .constant .plus 0, .constant .plus 0, .constant .plus 0, .constant .plus 0,
        .constant .plus 0, .constant .plus 0, .constant .plus 1]
    refine ⟨expression, outcome, by decide +kernel, rfl, by decide, by decide, ?_, ?_⟩
    · decide +kernel
    · decide +kernel
  · let expression : Expression :=
      ⟨"", [.constant (-1), .operator .minus, .constant Int64.minValue]⟩
    let outcome : Outcome := .ofContributions expression.written
      [.constant .plus (-1), .constant .minus Int64.minValue]
    refine ⟨expression, outcome, by decide +kernel, rfl, by decide, by decide, ?_⟩
    decide +kernel

end Dicebox
