import Dicebox.Proofs.Faces
import Dicebox.Proofs.Sums
import Dicebox.Proofs.WellFormed

/-!
# What an expression comes to

The total of a roll is the account of what its values contribute. A value contributes with the
sign of the operator directly before it: a constant itself, and a group the sum of its kept dice.
An *operand* is a value with this operator. The module follows the operands of an expression
through its roll, and finds the dice of every group as one block among the dice of the outcome.

The evaluation carries the operator along from term to term and saturates at every value. Neither
can be seen in the account: it is written in terms of the expression, of the blocks, and of exact
integers.

## Main definitions

* `Operand`, `operands` — the values of an expression with their operators.
* `signedConstants`, `signedGroups` — the two kinds of operand, apart.
* `contributed` — the exact integers that operands contribute.
* `Contributes` — what an operand can come to when it is rolled.

## Main results

* `WellFormed.flatMap_terms_operandsFrom` — the operands are the terms, operator by operator.
* `WellFormed.contributes` — every operand contributes, in the written order.
* `toInt_foldl_addTo` — the total is exact if its running sums are amounts.
* `Expression.roll_accounts` — the account of a roll.
-/

namespace Dicebox

/-! ### Operands -/

/-- A value of an expression, with the operator directly before it. -/
inductive Operand where
  | constant (op : Operator) (value : Amount)
  | dice (op : Operator) (group : DiceGroup)
  deriving DecidableEq, Repr

/-- The operands of terms, in written order, with `op` before the first term. A value without an
operator before it is added. -/
def operandsFrom (op : Operator) : List Term → List Operand
  | [] => []
  | .operator next :: more => operandsFrom next more
  | .constant value :: more => .constant op value :: operandsFrom .plus more
  | .dice group :: more => .dice op group :: operandsFrom .plus more

/-- The operands of terms, in written order. -/
def operands (terms : List Term) : List Operand :=
  operandsFrom .plus terms

namespace Operand

/-- An operand as it is written: its operator and its value. -/
def terms : Operand → List Term
  | constant op value => [.operator op, .constant value]
  | dice op group => [.operator op, .dice group]

/-- The integer that an operand adds, if it is a constant. -/
def constant? : Operand → Option Int
  | constant op value => some (op.sign value.toInt)
  | dice _ _ => none

/-- The group of an operand with its operator, if it is one. -/
def group? : Operand → Option (Operator × DiceGroup)
  | constant _ _ => none
  | dice op group => some (op, group)

end Operand

/-- The constants among terms, each with its sign, in written order. -/
def signedConstants (terms : List Term) : List Int :=
  (operands terms).filterMap Operand.constant?

/-- The groups among terms, each with its operator, in written order. -/
def signedGroups (terms : List Term) : List (Operator × DiceGroup) :=
  (operands terms).filterMap Operand.group?

/-- Every value of a well-formed expression is an operand, with the operator directly before it:
written out, the operands are the terms, with a plus before the first one. -/
theorem WellFormed.flatMap_terms_operandsFrom {terms : List Term} (h : WellFormed terms)
    (op : Operator) : (operandsFrom op terms).flatMap Operand.terms = .operator op :: terms := by
  induction h generalizing op with
  | @value term hvalue =>
      cases term with
      | operator => cases hvalue
      | constant | dice => rfl
  | @chain term next more hvalue _ _ ih =>
      cases term with
      | operator => cases hvalue
      | constant | dice =>
          rw [operandsFrom, operandsFrom, List.flatMap_cons, ih]
          rfl

/-! ### Contributions -/

variable {build : Build}

/-- What an operand comes to when it is rolled: a constant itself, and a group any pool that it
yields. -/
inductive Contributes : Operand → Contribution → Prop
  | constant {op : Operator} {value : Amount} :
      Contributes (.constant op value) (.constant op value)
  | dice {op : Operator} {group : DiceGroup} {draws : List Draw} {pool : Pool} :
      group.roll.Yields draws pool → Contributes (.dice op group) (.dice op pool)

/-- A value is an operand, and contributes before the terms behind it do; the evaluation goes on
with its operator. -/
theorem exists_contributes_of_isValue {term : Term} (hvalue : term.isValue) {op : Operator}
    {more : List Term} {draws : List Draw} {rolled : List Contribution}
    (h : (contributions build op (term :: more)).Yields draws rolled) :
    ∃ operand first others later,
      operandsFrom op (term :: more) = operand :: operandsFrom .plus more ∧
        rolled = first :: others ∧ Contributes operand first ∧
          (contributions build op more).Yields later others := by
  cases term with
  | operator => cases hvalue
  | constant value =>
      obtain ⟨others, hmore, rfl⟩ := Rolling.yields_bind_done_iff.mp h
      exact ⟨_, _, others, _, rfl, rfl, .constant, hmore⟩
  | dice group =>
      obtain ⟨pool, first, second, rfl, hpool, hrest⟩ := Rolling.yields_bind_iff.mp h
      obtain ⟨others, hmore, rfl⟩ := Rolling.yields_bind_done_iff.mp hrest
      have hgroup := (DiceGroup.yields_rollSummed_iff.mp hpool).1
      exact ⟨_, _, others, _, rfl, rfl, .dice hgroup, hmore⟩

/-- The operands of a well-formed expression contribute one after the other. The operator that
the evaluation carries along is the one directly before each value, because the terms alternate. -/
theorem WellFormed.contributes {terms : List Term} (h : WellFormed terms) {op : Operator}
    {draws : List Draw} {rolled : List Contribution}
    (hyields : (contributions build op terms).Yields draws rolled) :
    List.Forall₂ Contributes (operandsFrom op terms) rolled := by
  induction h generalizing op draws rolled with
  | value hvalue =>
      obtain ⟨operand, first, others, later, heq, rfl, hfirst, hothers⟩ :=
        exists_contributes_of_isValue hvalue hyields
      obtain ⟨-, rfl⟩ := Rolling.yields_done_iff.mp hothers
      exact heq ▸ .cons hfirst .nil
  | chain hvalue _ _ ih =>
      obtain ⟨operand, first, others, later, heq, rfl, hfirst, hothers⟩ :=
        exists_contributes_of_isValue hvalue hyields
      exact heq ▸ .cons hfirst (ih hothers)

/-- An expression yields an outcome when it is well-formed and its contributions make it. -/
theorem Expression.yields_roll_iff {expression : Expression} {draws : List Draw}
    {outcome : Outcome} :
    (expression.roll build).Yields draws outcome ↔ WellFormed expression.terms ∧
      ∃ rolled, (contributions build .plus expression.terms).Yields draws rolled ∧
        Outcome.ofContributions expression.written rolled = outcome := by
  rw [roll, ← flaw?_eq_none_iff]
  split
  · next flaw hflaw =>
      refine iff_of_false Rolling.not_yields_failed fun h => ?_
      cases hflaw.symm.trans h.1
  · next hflaw =>
      rw [and_iff_right hflaw]
      exact Rolling.yields_bind_done_iff

/-- The outcome of a roll is made of contributions of the operands. -/
theorem Expression.exists_contributes_of_run {σ : Type} [DieSource σ] {expression : Expression}
    {source left : σ} {outcome : Outcome}
    (h : (expression.roll build).run source = (.ok outcome, left)) :
    WellFormed expression.terms ∧
      ∃ rolled, List.Forall₂ Contributes (operands expression.terms) rolled ∧
        Outcome.ofContributions expression.written rolled = outcome := by
  obtain ⟨draws, hyields, -⟩ := Rolling.run_eq_ok_iff.mp h
  obtain ⟨hformed, rolled, hrolled, hmade⟩ := Expression.yields_roll_iff.mp hyields
  exact ⟨hformed, rolled, hformed.contributes hrolled, hmade⟩

namespace Contribution

/-- The dice of a contribution, if it is a group. -/
def block? : Contribution → Option (List Die)
  | constant _ _ => none
  | dice _ pool => some pool.dice

/-- The integer that a contribution adds to the total. -/
def exact : Contribution → Int
  | constant op value => op.sign value.toInt
  | dice op pool => op.sign (keptTotal pool.dice)

end Contribution

/-- All dice of contributions stand in the blocks of the groups. -/
theorem flatMap_rolled_eq_flatten (rolled : List Contribution) :
    rolled.flatMap Contribution.rolled = (rolled.filterMap Contribution.block?).flatten := by
  induction rolled with
  | nil => rfl
  | cons first rolled ih =>
      rw [List.flatMap_cons, ih]
      cases first <;> rfl

/-- The values that count are those of the dice that are kept. -/
theorem flatMap_keptValues_eq_map (rolled : List Contribution) :
    rolled.flatMap Contribution.keptValues =
      ((rolled.flatMap Contribution.rolled).filter Die.kept).map Die.value := by
  induction rolled with
  | nil => rfl
  | cons first rolled ih =>
      rw [List.flatMap_cons, List.flatMap_cons, List.filter_append, List.map_append, ih]
      cases first <;> rfl

/-! ### The account -/

/-- The integers that operands contribute to the total, in written order, when the groups among
them have rolled the blocks of dice, in the same order. -/
def contributed : List Operand → List (List Die) → List Int
  | .constant op value :: more, blocks => op.sign value.toInt :: contributed more blocks
  | .dice op _ :: more, block :: blocks =>
    op.sign (keptTotal block) :: contributed more blocks
  | _, _ => []

/-- What operands contribute is what their contributions add. -/
theorem contributed_eq_map_exact {terms : List Operand} {rolled : List Contribution}
    (h : List.Forall₂ Contributes terms rolled) :
    contributed terms (rolled.filterMap Contribution.block?) = rolled.map Contribution.exact := by
  induction h with
  | nil => rfl
  | cons hfirst _ ih =>
      cases hfirst with
      | constant | dice => exact congrArg (_ :: ·) ih

/-- The exact total is that of the groups and that of the constants. -/
theorem sum_contributed {terms : List Operand} {blocks : List (List Die)}
    (h : blocks.length = (terms.filterMap Operand.group?).length) :
    (contributed terms blocks).sum =
      (List.zipWith (fun signed block => signed.1.sign (keptTotal block))
        (terms.filterMap Operand.group?) blocks).sum +
      (terms.filterMap Operand.constant?).sum := by
  induction terms generalizing blocks with
  | nil => rfl
  | cons first terms ih =>
      cases first with
      | constant op value =>
          have hmore := ih h
          simp only [contributed, List.filterMap_cons, Operand.group?, Operand.constant?,
            List.sum_cons, hmore]
          omega
      | dice op group =>
          cases blocks with
          | nil => cases h
          | cons block blocks =>
              have hmore := ih (Nat.succ.inj h)
              simp only [contributed, List.filterMap_cons, Operand.group?, Operand.constant?,
                List.zipWith_cons_cons, List.sum_cons, hmore]
              omega

/-- Every group among operands yields its block of dice. -/
theorem forall₂_block {terms : List Operand} {rolled : List Contribution}
    (h : List.Forall₂ Contributes terms rolled) :
    List.Forall₂ (fun (signed : Operator × DiceGroup) block =>
        ∃ draws, signed.2.roll.Yields draws ⟨signed.2.sides, block⟩)
      (terms.filterMap Operand.group?) (rolled.filterMap Contribution.block?) := by
  induction h with
  | nil => exact .nil
  | cons hfirst _ ih =>
      cases hfirst with
      | constant => exact ih
      | @dice op group draws pool hpool =>
          obtain ⟨sides, dice⟩ := pool
          obtain rfl : sides = group.sides := (group.roll_always draws _ hpool).2
          exact .cons ⟨draws, hpool⟩ ih

/-- A contribution is added exactly, and then the total saturates, if the sum of its kept dice
is an amount. -/
theorem Contribution.addTo_eq_nearest {contribution : Contribution} (total : Amount)
    (h : ∀ block ∈ contribution.block?, keptTotal block ≤ 2 ^ 63 - 1) :
    contribution.addTo total = .nearest (total.toInt + contribution.exact) := by
  cases contribution with
  | constant op value => exact op.apply_eq_nearest total value
  | dice op pool =>
      rw [addTo, op.apply_eq_nearest, Pool.toInt_keptSum (h _ rfl)]
      rfl

/-- The total of contributions is the exact sum, if the sums of the groups and the running sums
are amounts. -/
theorem toInt_foldl_addTo {rolled : List Contribution}
    (hkept : ∀ block ∈ rolled.filterMap Contribution.block?, keptTotal block ≤ 2 ^ 63 - 1)
    (hrun : Amount.RunFits (rolled.map Contribution.exact)) :
    (rolled.foldl Contribution.addTo 0).toInt = (rolled.map Contribution.exact).sum := by
  have hfold : rolled.foldl Contribution.addTo 0 = (rolled.map Contribution.exact).foldl
      (fun sum value => .nearest (sum.toInt + value)) 0 := by
    rw [List.foldl_map]
    refine List.foldl_ext _ _ _ fun total contribution hmem => ?_
    exact contribution.addTo_eq_nearest total fun block hblock =>
      hkept block (List.mem_filterMap.mpr ⟨contribution, hmem, hblock⟩)
  rw [hfold, Amount.toInt_foldl_nearest_zero hrun]

/-- **The account of a roll.** The dice of an outcome are one block after the other, for the
groups in their written order; a block is what its group yields, and its dice have the sides of
the group and show faces. The values that count are those of the kept dice, in order, and the
dropped dice are all others, in order. The total is the sum that is kept in the blocks and of the
constants, each with the sign of the operator directly before it, as long as no sum on the way
leaves the amounts. -/
theorem Expression.roll_accounts {σ : Type} [DieSource σ] {expression : Expression}
    {source left : σ} {outcome : Outcome}
    (h : (expression.roll build).run source = (.ok outcome, left)) :
    (operands expression.terms).flatMap Operand.terms = .operator .plus :: expression.terms ∧
    ∃ blocks : List (List Die),
      outcome.dice = blocks.flatten ∧
      List.Forall₂ (fun (signed : Operator × DiceGroup) block =>
          (∃ draws, signed.2.roll.Yields draws ⟨signed.2.sides, block⟩) ∧
          ∀ die ∈ block, die.sides = signed.2.sides ∧ 1 ≤ die.value ∧ die.value ≤ signed.2.sides)
        (signedGroups expression.terms) blocks ∧
      outcome.rolls = (outcome.dice.filter Die.kept).map Die.value ∧
      outcome.dropped = outcome.dice.filter (!·.kept) ∧
      (outcome.dice.filter Die.kept ++ outcome.dropped).Perm outcome.dice ∧
      ((∀ block ∈ blocks, Amount.Fits (keptTotal block)) →
        Amount.RunFits (contributed (operands expression.terms) blocks) →
        outcome.total.toInt =
          (List.zipWith (fun signed block => signed.1.sign (keptTotal block))
            (signedGroups expression.terms) blocks).sum +
          (signedConstants expression.terms).sum) := by
  obtain ⟨draws, hyields, -⟩ := Rolling.run_eq_ok_iff.mp h
  obtain ⟨hformed, rolled, hrolled, rfl⟩ := Expression.yields_roll_iff.mp hyields
  have hcontributes : List.Forall₂ Contributes (operands expression.terms) rolled :=
    hformed.contributes hrolled
  have hblocks := forall₂_block hcontributes
  refine ⟨hformed.flatMap_terms_operandsFrom .plus, rolled.filterMap Contribution.block?,
    flatMap_rolled_eq_flatten rolled, ?_, flatMap_keptValues_eq_map rolled, rfl,
    List.filter_append_perm _ _, ?_⟩
  · refine hblocks.imp fun signed block hblock => ⟨hblock, fun die hdie => ?_⟩
    obtain ⟨draws, hyields⟩ := hblock
    exact DiceGroup.shows_of_yields hyields hdie
  · intro hkept hrun
    rw [contributed_eq_map_exact hcontributes] at hrun
    have hfits : ∀ block ∈ rolled.filterMap Contribution.block?,
        keptTotal block ≤ 2 ^ 63 - 1 := by
      intro block hblock
      have := (hkept block hblock).2
      omega
    calc (rolled.foldl Contribution.addTo 0).toInt
        = (rolled.map Contribution.exact).sum := toInt_foldl_addTo hfits hrun
      _ = (contributed (operands expression.terms)
            (rolled.filterMap Contribution.block?)).sum := by
          rw [contributed_eq_map_exact hcontributes]
      _ = _ := sum_contributed hblocks.length_eq.symm

/-- Four dice of which ones are rerolled, subtracted between two constants. -/
theorem Expression.roll_accounts_of_subtracted :
    ∃ (expression : Expression) (outcome : Outcome) (left : Stepper),
      expression.text = "7-4d6r1+2" ∧
      expression.roll.run (⟨5, 7⟩ : Stepper) = (.ok outcome, left) ∧
      outcome.rolls = [5, 6, 2, 3] ∧ outcome.total.toInt = -(5 + 6 + 2 + 3) + (7 + 2) := by
  let expression : Expression :=
    ⟨"", [.constant 7, .operator .minus, .dice ⟨4, 6, [.reroll 1], by decide⟩,
      .operator .plus, .constant 2]⟩
  let outcome : Outcome :=
    { written := "", rolls := [5, 6, 2, 3], modifiers := .ofConstants [7, 2], total := -7
      output := ": [5, 6, 2, 3] (+9) = -7"
      dice := [⟨6, 5, true⟩, ⟨6, 6, true⟩, ⟨6, 1, false⟩, ⟨6, 2, true⟩, ⟨6, 3, true⟩] }
  have hrun : expression.roll.run (⟨5, 7⟩ : Stepper) = (.ok outcome, ⟨40, 7⟩) := by
    decide +kernel
  refine ⟨expression, outcome, _, by decide +kernel, hrun, rfl, ?_⟩
  obtain ⟨-, blocks, hdice, hblocks, -, -, -, htotal⟩ := Expression.roll_accounts hrun
  obtain ⟨block, rfl⟩ : ∃ block, blocks = [block] :=
    List.length_eq_one_iff.mp hblocks.length_eq.symm
  obtain rfl : outcome.dice = block := by simpa using hdice
  exact htotal (by decide) (by decide)

end Dicebox
