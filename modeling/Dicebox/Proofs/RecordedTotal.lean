import Dicebox.Proofs.WrittenOrder

/-!
# The total and what is recorded

A roll comes to a total, and what it recorded should account for it: the table holds the constants
with their signs, the dice are all there, and adding up what each value comes to, in the written
order and with every sum moved to the nearest amount, should be the total again.

It nearly is. The total is reached by adding or subtracting the values, and the record holds their
opposites where a minus stands before them. The two agree on every value but one: the smallest
amount has no opposite, so behind a minus the largest amount is recorded, which is one less than
what is subtracted. A sum that is not negative saturates at the largest amount in both ways. So the
record accounts for the total if no smallest amount is subtracted while the sum is negative, and
otherwise it is short of it by at most one for every time that this happens.

## Main definitions

* `Amount.saturatingSum` — the sum of integers, moved to the nearest amount at every step.
* `recorded` — what each operand comes to, read from a table and from blocks of dice.
* `Contribution.noted` — what a contribution leaves in the record.

## Main results

* `recorded_eq_map_noted` — the record holds what is noted of the contributions.
* `Contribution.addTo_eq_nearest_noted` — what is noted of a contribution is what it adds, or one
  less.
* `foldl_addTo_eq_foldl_noted` — the total is the sum of what is noted.
* `foldl_noted_le_foldl_addTo` — how far the sum of what is noted is from the total.
* `Expression.roll_recorded` — when the record of a roll accounts for its total.
* `Expression.roll_recorded_ne` — a roll whose record does not.
-/

namespace Dicebox

/-! ### The record -/

namespace Amount

/-- An amount and an integer, added and moved to the nearest amount. -/
def addInt (sum : Amount) (value : Int) : Amount :=
  nearest (sum.toInt + value)

/-- The sum of integers, in order, where every sum on the way is moved to the nearest amount. -/
def saturatingSum (values : List Int) : Amount :=
  values.foldl addInt 0

end Amount

/-- What each operand comes to, by the record: for a constant the amount under its number in the
table, and for a group the sum of its block of dice with the sign of its operator. The first
constant has the given number. -/
def recorded (modifiers : Modifiers) : Nat → List Operand → List (List Die) → Option (List Int)
  | _, [], _ => some []
  | ordinal, .constant _ _ :: more, blocks => do
    let value ← modifiers.entries.lookup (Modifiers.key ordinal)
    let values ← recorded modifiers (ordinal + 1) more blocks
    return value.toInt :: values
  | ordinal, .dice op group :: more, block :: blocks => do
    let values ← recorded modifiers ordinal more blocks
    return op.sign (Pool.keptSum ⟨group.sides, block⟩).toInt :: values
  | _, .dice _ _ :: _, [] => none

/-- What is noted of a contribution: the amount that is recorded of a constant, and the sum of a
group with its sign. -/
def Contribution.noted : Contribution → Int
  | constant op value => (op.signed value).toInt
  | dice op pool => op.sign pool.keptSum.toInt

/-- An entry of a table is found under its key. -/
theorem Modifiers.lookup_eq_some_of_mem {modifiers : Modifiers} {key : String} {value : Amount}
    (h : (key, value) ∈ modifiers.entries) : modifiers.entries.lookup key = some value := by
  obtain ⟨front, back, hentries⟩ := List.append_of_mem h
  rw [List.lookup_eq_some_iff]
  refine ⟨front, back, hentries, fun entry hentry => ?_⟩
  have hascending := modifiers.ascending
  rw [hentries, List.pairwise_append] at hascending
  have hlt := hascending.2.2 entry hentry (key, value) List.mem_cons_self
  exact bne_iff_ne.mpr (String.ne_of_lt hlt).symm

/-- Behind some constants the next one is found under its number. -/
theorem Modifiers.lookup_ofConstants (front : List Amount) (value : Amount) (back : List Amount) :
    (ofConstants (front ++ value :: back)).entries.lookup (key (front.length + 1)) =
      some value := by
  refine lookup_eq_some_of_mem ((entries_ofConstants_perm _).mem_iff.mpr ?_)
  refine List.mem_map.mpr ⟨(value, front.length + 1), ?_, rfl⟩
  rw [List.zipIdx_append, List.zipIdx_cons, Nat.add_comm 1]
  exact List.mem_append_right _ List.mem_cons_self

/-- The record of contributions holds what is noted of them. Induction on the operands: the
constants in front of them are those that the table has under smaller numbers. -/
theorem recorded_eq_map_noted {terms : List Operand} {rolled : List Contribution}
    (h : List.Forall₂ Contributes terms rolled) (front : List Amount) :
    recorded (.ofConstants (front ++ rolled.filterMap Contribution.constant?)) (front.length + 1)
      terms (rolled.filterMap Contribution.block?) = some (rolled.map Contribution.noted) := by
  induction h generalizing front with
  | nil => rfl
  | @cons operand first terms rolled hfirst _ ih =>
      cases hfirst with
      | @constant op value =>
          have hmore := ih (front ++ [op.signed value])
          rw [List.append_assoc, List.length_append] at hmore
          have htable : (Contribution.constant op value :: rolled).filterMap
              Contribution.constant? =
                op.signed value :: rolled.filterMap Contribution.constant? := rfl
          rw [recorded, htable, Modifiers.lookup_ofConstants]
          exact congrArg (Option.bind · _) hmore
      | @dice op group draws pool hpool =>
          obtain ⟨sides, dice⟩ := pool
          obtain rfl : sides = group.sides := (group.roll_always draws _ hpool).2
          exact congrArg (Option.bind · _) (ih front)

/-! ### The total -/

namespace Amount

/-- A greater integer has no smaller amount nearest to it. -/
theorem toInt_nearest_mono {m n : Int} (h : m ≤ n) : (nearest m).toInt ≤ (nearest n).toInt := by
  rw [toInt_nearest, toInt_nearest]
  omega

/-- The nearest amounts are no farther apart than the integers are. -/
theorem toInt_nearest_add_le (n : Int) (k : Nat) :
    (nearest (n + k)).toInt ≤ (nearest n).toInt + k := by
  rw [toInt_nearest, toInt_nearest]
  omega

end Amount

/-- A contribution adds what is noted of it, and one more if it is a smallest amount behind a
minus. -/
theorem Contribution.addTo_eq_nearest_noted (contribution : Contribution) (total : Amount) :
    contribution.addTo total = .nearest (total.toInt + contribution.noted +
      if contribution = .constant .minus Int64.minValue then 1 else 0) := by
  cases contribution with
  | dice op pool =>
      rw [if_neg nofun, Int.add_zero]
      exact op.apply_eq_nearest total pool.keptSum
  | constant op value =>
      rw [addTo, op.apply_eq_nearest, noted]
      split
      · next hsmallest =>
          obtain ⟨rfl, rfl⟩ := Contribution.constant.inj hsmallest
          have hopposite : Operator.minus.sign Int64.minValue.toInt =
              (Operator.minus.signed Int64.minValue).toInt + 1 := by decide
          rw [hopposite, Int.add_assoc]
      · next hsmallest =>
          rw [Operator.toInt_signed, Int.add_zero]
          rintro ⟨rfl, rfl⟩
          exact hsmallest rfl

/-- A contribution adds what is noted of it, unless a smallest amount is subtracted from a negative
total: a total that is not negative saturates. -/
theorem Contribution.addTo_eq_nearest_noted_of_nonneg {contribution : Contribution} {total : Amount}
    (h : contribution = .constant .minus Int64.minValue → 0 ≤ total.toInt) :
    contribution.addTo total = total.addInt contribution.noted := by
  rw [addTo_eq_nearest_noted, Amount.addInt]
  split
  · next hsmallest =>
      have hpos := h hsmallest
      have hnoted : contribution.noted = Int64.maxValue.toInt := by
        rw [hsmallest]
        decide
      refine Int64.toInt_inj.mp ?_
      rw [Amount.toInt_nearest, Amount.toInt_nearest, hnoted]
      omega
  · rw [Int.add_zero]

/-- A constant is what its operand says. -/
theorem Contributes.eq_constant_iff {operand : Operand} {contribution : Contribution}
    (h : Contributes operand contribution) {op : Operator} {value : Amount} :
    contribution = .constant op value ↔ operand = .constant op value := by
  cases h with
  | constant => rw [Contribution.constant.injEq, Operand.constant.injEq]
  | dice => exact iff_of_false nofun nofun

/-- The total of contributions is the sum of what is noted of them, if it is not negative where a
smallest amount is subtracted. Induction on the operands: the first one leaves a new start, and the
sums in front of the others begin there. -/
theorem foldl_addTo_eq_foldl_noted {terms : List Operand} {rolled : List Contribution}
    (h : List.Forall₂ Contributes terms rolled) (start : Amount)
    (hsmallest : ∀ i, terms[i]? = some (.constant .minus Int64.minValue) →
      0 ≤ (((rolled.map Contribution.noted).take i).foldl Amount.addInt start).toInt) :
    rolled.foldl Contribution.addTo start =
      (rolled.map Contribution.noted).foldl Amount.addInt start := by
  induction h generalizing start with
  | nil => rfl
  | @cons operand first terms rolled hfirst _ ih =>
      have hstep : first.addTo start = start.addInt first.noted :=
        Contribution.addTo_eq_nearest_noted_of_nonneg fun heq =>
          hsmallest 0 (congrArg some (hfirst.eq_constant_iff.mp heq))
      rw [List.foldl_cons, List.map_cons, List.foldl_cons, hstep]
      exact ih _ fun i hi => hsmallest (i + 1) hi

/-- The sum of what is noted of contributions is not above their total, and below it by at most one
for every smallest amount that is subtracted. -/
theorem foldl_noted_le_foldl_addTo {terms : List Operand} {rolled : List Contribution}
    (h : List.Forall₂ Contributes terms rolled) {sum total : Amount} {missing : Nat}
    (hle : sum.toInt ≤ total.toInt) (hge : total.toInt ≤ sum.toInt + missing) :
    ((rolled.map Contribution.noted).foldl Amount.addInt sum).toInt ≤
      (rolled.foldl Contribution.addTo total).toInt ∧
    (rolled.foldl Contribution.addTo total).toInt ≤
      ((rolled.map Contribution.noted).foldl Amount.addInt sum).toInt +
        (missing + terms.count (.constant .minus Int64.minValue) : Nat) := by
  induction h generalizing sum total missing with
  | nil => exact ⟨hle, hge⟩
  | @cons operand first terms rolled hfirst _ ih =>
      rw [List.map_cons, List.foldl_cons, List.foldl_cons, first.addTo_eq_nearest_noted,
        Amount.addInt, List.count_cons]
      simp only [hfirst.eq_constant_iff, beq_iff_eq]
      -- A smallest amount behind a minus widens the distance by one, anything else keeps it.
      split
      · rw [← Nat.add_assoc, Nat.add_right_comm]
        refine ih (Amount.toInt_nearest_mono (by omega)) ?_
        refine le_trans (Amount.toInt_nearest_mono ?_) (Amount.toInt_nearest_add_le _ (missing + 1))
        push_cast
        omega
      · refine ih (Amount.toInt_nearest_mono (by omega)) ?_
        refine le_trans (Amount.toInt_nearest_mono ?_) (Amount.toInt_nearest_add_le _ missing)
        omega

/-! ### The record of a roll -/

/-- **When the record of a roll accounts for its total.** The record of a roll has something for
every operand of its expression: for a constant the amount under its number in the table, and for a
group the sum of its block of dice with its sign. The sum of all this, in the written order and
moved to the nearest amount at every step, is the total if it is not negative where a smallest
amount is subtracted. In any case it is not above the total, and below it by at most one for every
smallest amount that is subtracted. -/
theorem Expression.roll_recorded {build : Build} {σ : Type} [DieSource σ]
    {expression : Expression} {source left : σ} {outcome : Outcome}
    (h : (expression.roll build).run source = (.ok outcome, left)) :
    (operands expression.terms).flatMap Operand.terms = .operator .plus :: expression.terms ∧
    ∃ (blocks : List (List Die)) (values : List Int),
      outcome.dice = blocks.flatten ∧
      List.Forall₂ (fun (signed : Operator × DiceGroup) block =>
          ∃ draws, signed.2.roll.Yields draws ⟨signed.2.sides, block⟩)
        (signedGroups expression.terms) blocks ∧
      recorded outcome.modifiers 1 (operands expression.terms) blocks = some values ∧
      ((∀ i, (operands expression.terms)[i]? = some (.constant .minus Int64.minValue) →
          0 ≤ (Amount.saturatingSum (values.take i)).toInt) →
        outcome.total = .saturatingSum values) ∧
      (Amount.saturatingSum values).toInt ≤ outcome.total.toInt ∧
      outcome.total.toInt ≤ (Amount.saturatingSum values).toInt +
        (operands expression.terms).count (.constant .minus Int64.minValue) := by
  obtain ⟨hformed, rolled, hcontributes, rfl⟩ := Expression.exists_contributes_of_run h
  have hbounds := foldl_noted_le_foldl_addTo hcontributes (Int.le_refl (0 : Amount).toInt)
    (Int.le_add_of_nonneg_right (Int.natCast_nonneg 0))
  rw [Nat.zero_add] at hbounds
  exact ⟨hformed.flatMap_terms_operandsFrom .plus, rolled.filterMap Contribution.block?,
    rolled.map Contribution.noted, flatMap_rolled_eq_flatten rolled, forall₂_block hcontributes,
    recorded_eq_map_noted hcontributes [], foldl_addTo_eq_foldl_noted hcontributes 0, hbounds⟩

/-- Rerolled dice from which the smallest amount is subtracted, and three: the sum of the dice is
not negative, so the record accounts for the total, which saturates in between. -/
theorem Expression.roll_recorded_of_smallest :
    ∃ (expression : Expression) (outcome : Outcome) (left : Stepper) (values : List Int),
      expression.text = "4d6r1--9223372036854775808-3" ∧
      expression.roll.run (⟨5, 7⟩ : Stepper) = (.ok outcome, left) ∧
      recorded outcome.modifiers 1 (operands expression.terms) [outcome.dice] = some values ∧
      values = [16, 9223372036854775807, -3] ∧ outcome.total = .saturatingSum values ∧
      outcome.total.toInt = 9223372036854775804 := by
  let expression : Expression :=
    ⟨"", [.dice ⟨4, 6, [.reroll 1], by decide⟩, .operator .minus, .constant Int64.minValue,
      .operator .minus, .constant 3]⟩
  let outcome : Outcome :=
    { written := "", rolls := [5, 6, 2, 3], modifiers := .ofConstants [Int64.maxValue, -3]
      total := 9223372036854775804
      output := ": [5, 6, 2, 3] (+9223372036854775804) = 9223372036854775804"
      dice := [⟨6, 5, true⟩, ⟨6, 6, true⟩, ⟨6, 1, false⟩, ⟨6, 2, true⟩, ⟨6, 3, true⟩] }
  have hrun : expression.roll.run (⟨5, 7⟩ : Stepper) = (.ok outcome, ⟨40, 7⟩) := by
    decide +kernel
  have hvalues : recorded outcome.modifiers 1 (operands expression.terms) [outcome.dice] =
      some [16, 9223372036854775807, -3] := by
    decide +kernel
  obtain ⟨-, blocks, values, hdice, hblocks, hrecorded, htotal, -⟩ := Expression.roll_recorded hrun
  obtain ⟨block, rfl⟩ : ∃ block, blocks = [block] :=
    List.length_eq_one_iff.mp hblocks.length_eq.symm
  obtain rfl : outcome.dice = block := by simpa using hdice
  obtain rfl := Option.some.inj (hvalues.symm.trans hrecorded)
  refine ⟨expression, outcome, _, _, by decide +kernel, hrun, hvalues, rfl, htotal fun i hi => ?_,
    by decide⟩
  match i, hi with
  | 0, hi => exact absurd hi (by decide)
  | 1, _ => decide
  | 2, hi => exact absurd hi (by decide)

/-- The smallest amount is subtracted from a negative sum: what the record holds adds up to one less
than the total. -/
theorem Expression.roll_recorded_ne :
    ∃ (expression : Expression) (outcome : Outcome) (values : List Int),
      expression.text = "-1--9223372036854775808" ∧
      expression.roll.run (⟨[]⟩ : Replay) = (.ok outcome, ⟨[]⟩) ∧ outcome.dice = [] ∧
      recorded outcome.modifiers 1 (operands expression.terms) [] = some values ∧
      values = [-1, 9223372036854775807] ∧ outcome.total ≠ .saturatingSum values ∧
      outcome.total.toInt = 9223372036854775807 ∧
      (Amount.saturatingSum values).toInt = 9223372036854775806 := by
  let expression : Expression :=
    ⟨"", [.constant (-1), .operator .minus, .constant Int64.minValue]⟩
  let outcome : Outcome := .ofContributions expression.written
    [.constant .plus (-1), .constant .minus Int64.minValue]
  exact ⟨expression, outcome, [-1, 9223372036854775807], by decide +kernel, rfl, rfl,
    by decide +kernel, rfl, by decide, by decide, by decide⟩

end Dicebox
