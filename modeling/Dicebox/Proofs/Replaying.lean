import Mathlib.Control.Monad.Basic
import Dicebox.Evaluate
import Dicebox.Proofs.Drawing

/-!
# Rolling the same dice again

The dice of an outcome are the record of its roll: they stand in the order in which they were
drawn, although qualifiers go through a pool that grows while they do, and mark dice in the
middle of it. No qualifier takes a die away, moves it or changes what it shows. So every path
of a roll can be read off its outcome, and a source that gives the values of the record leads
down the same path.

## Main definitions

* `Die.draw` — the draw that a die records.
* `Observed` — a source with a list of what it was asked, and what it answered.

## Main results

* `Pool.map_draw_cascade`, `DiceGroup.map_draw_roll`, `Expression.map_draw_roll` — the dice of a
  pool, a group and an outcome record the draws, in their order.
* `Replay.answers`, `DieSource.Answers.observed` — what a list of values answers, and what an
  observed source does.
-/

namespace Dicebox

/-- The draw that a die records, whether or not it is kept. -/
def Die.draw (die : Die) : Draw :=
  ⟨die.sides, die.value⟩

@[simp] theorem Die.draw_drop (die : Die) : die.drop.draw = die.draw := rfl

variable {sides : UInt32} {draws : List Draw} {pool after : Pool}

/-! ### Rolling dice -/

/-- A die that was rolled records its draw. -/
theorem draw_rollDie {die : Die} (h : (rollDie sides).Yields draws die) : draws = [die.draw] := by
  obtain ⟨value, more, rfl, hnext⟩ := Rolling.yields_ask_iff.mp h
  split at hnext
  · obtain ⟨rfl, rfl⟩ := Rolling.yields_done_iff.mp hnext
    rfl
  · exact absurd hnext Rolling.not_yields_failed

/-- Dice rolled one after the other record the draws behind those of the dice before them. -/
theorem map_draw_rollOnto {n : Nat} {rolled dice : List Die}
    (h : (rollOnto sides n rolled).Yields draws dice) :
    dice.map Die.draw = (rolled.map Die.draw).reverse ++ draws := by
  induction n generalizing rolled draws with
  | zero =>
      obtain ⟨rfl, rfl⟩ := Rolling.yields_done_iff.mp h
      rw [List.map_reverse, List.append_nil]
  | succ n ih =>
      obtain ⟨die, first, second, rfl, hdie, hmore⟩ := Rolling.yields_bind_iff.mp h
      obtain rfl : first = [die.draw] := draw_rollDie hdie
      rw [ih hmore, List.map_cons, List.reverse_cons, List.append_assoc]

namespace Pool

/-- The dice of a group record its draws. -/
theorem map_draw_roll {count : Nat} (h : (roll count sides).Yields draws pool) :
    pool.dice.map Die.draw = draws := by
  obtain ⟨dice, hdice, rfl⟩ := Rolling.yields_bind_done_iff.mp h
  exact map_draw_rollOnto hdice

/-- Dropping dice changes nothing of what they record. -/
theorem map_draw_dropAt (places : List Nat) (dice : List Die) :
    (dropAt places dice).map Die.draw = dice.map Die.draw := by
  have hdraw : (Die.draw ∘ fun (entry : Die × Nat) =>
      if places.contains entry.2 then entry.1.drop else entry.1) = Die.draw ∘ Prod.fst := by
    funext entry
    rw [Function.comp_apply, Function.comp_apply]
    split
    · rfl
    · rfl
  calc (dropAt places dice).map Die.draw
      = dice.zipIdx.map (Die.draw ∘ Prod.fst) := by rw [dropAt, List.map_map, ← hdraw]
    _ = dice.map Die.draw := by rw [← List.map_map, List.zipIdx_map_fst]

/-- Going through dice and adding to them records the draws behind those of the dice, if what
is done to a die that triggers changes nothing of what it records. -/
theorem map_draw_cascade {triggers : Die → Bool} {settle : Die → Die}
    (hsettle : ∀ die, (settle die).draw = die.draw) {budget : Nat} {dice result : List Die}
    (h : (cascade triggers settle sides budget dice).Yields draws result) :
    result.map Die.draw = dice.map Die.draw ++ draws := by
  induction budget generalizing dice draws result with
  | zero =>
      obtain ⟨rfl, rfl⟩ := Rolling.yields_done_iff.mp h
      rw [List.append_nil]
  | succ budget ih =>
      rw [cascade] at h
      split at h
      · obtain ⟨rfl, rfl⟩ := Rolling.yields_done_iff.mp h
        rw [List.append_nil]
      · next die more hdie =>
          obtain ⟨added, first, second, rfl, hadded, h⟩ := Rolling.yields_bind_iff.mp h
          obtain ⟨rest, hrest, rfl⟩ := Rolling.yields_bind_done_iff.mp h
          obtain rfl : first = [added.draw] := draw_rollDie hadded
          -- The die that triggers stays where it is, and the new one goes behind all others.
          have hwhole : dice = dice.takeWhile (!triggers ·) ++ die :: more := by
            rw [← hdie, List.takeWhile_append_dropWhile]
          calc (dice.takeWhile (!triggers ·) ++ settle die :: rest).map Die.draw
              = (dice.takeWhile (!triggers ·)).map Die.draw ++
                  die.draw :: ((more ++ [added]).map Die.draw ++ second) := by
                rw [List.map_append, List.map_cons, hsettle, ih hrest]
            _ = (dice.takeWhile (!triggers ·) ++ die :: more).map Die.draw ++
                  ([added.draw] ++ second) := by
                simp only [List.map_append, List.map_cons, List.map_nil, List.append_assoc,
                  List.cons_append]
            _ = dice.map Die.draw ++ ([added.draw] ++ second) := by rw [← hwhole]

end Pool

/-! ### Qualifiers -/

/-- A selection changes nothing of what dice record. -/
theorem Selection.map_draw_apply (which : Selection) (n : Nat) (pool : Pool) :
    (which.apply n pool).dice.map Die.draw = pool.dice.map Die.draw := by
  cases which with
  | keepHighest | keepLowest | dropHighest | dropLowest => exact Pool.map_draw_dropAt _ pool.dice

/-- A qualifier records its draws behind those of the pool. -/
theorem Qualifier.map_draw_apply {qualifier : Qualifier}
    (h : (qualifier.apply pool).Yields draws after) :
    after.dice.map Die.draw = pool.dice.map Die.draw ++ draws := by
  cases qualifier with
  | select which n =>
      obtain ⟨rfl, rfl⟩ := Rolling.yields_done_iff.mp h
      rw [which.map_draw_apply, List.append_nil]
  | reroll threshold =>
      obtain ⟨dice, hdice, rfl⟩ := Rolling.yields_bind_done_iff.mp h
      exact Pool.map_draw_cascade Die.draw_drop hdice
  | explode threshold =>
      obtain ⟨dice, hdice, rfl⟩ := Rolling.yields_bind_done_iff.mp h
      exact Pool.map_draw_cascade (fun _ => rfl) hdice

/-- Qualifiers record their draws behind those of the pool, in the order in which they act. -/
theorem Pool.map_draw_qualify {qualifiers : List Qualifier}
    (h : (pool.qualify qualifiers).Yields draws after) :
    after.dice.map Die.draw = pool.dice.map Die.draw ++ draws := by
  induction qualifiers generalizing pool draws with
  | nil =>
      obtain ⟨rfl, rfl⟩ := Rolling.yields_done_iff.mp h
      rw [List.append_nil]
  | cons qualifier more ih =>
      obtain ⟨between, first, second, rfl, hfirst, hmore⟩ := Rolling.yields_bind_iff.mp h
      rw [ih hmore, Qualifier.map_draw_apply hfirst, List.append_assoc]

/-- The dice of a group record all draws of the group. -/
theorem DiceGroup.map_draw_roll {group : DiceGroup} (h : group.roll.Yields draws pool) :
    pool.dice.map Die.draw = draws := by
  obtain ⟨rolled, first, more, rfl, hrolled, h⟩ := Rolling.yields_bind_iff.mp h
  obtain ⟨generated, second, third, rfl, hgenerated, hfiltered⟩ := Rolling.yields_bind_iff.mp h
  rw [Pool.map_draw_qualify hfiltered, Pool.map_draw_qualify hgenerated,
    Pool.map_draw_roll hrolled, List.append_assoc]

/-! ### Expressions -/

variable {build : Build}

/-- A group that is added up as well is rolled as the group, unless its sum overflows where it is
checked. -/
theorem DiceGroup.yields_rollSummed_iff {group : DiceGroup} :
    (group.rollSummed build).Yields draws pool ↔
      group.roll.Yields draws pool ∧ ¬ (build = .debug ∧ pool.keptSum? = none) := by
  rw [rollSummed, Rolling.yields_bind_iff]
  constructor
  · rintro ⟨pool, first, second, rfl, hpool, hsum⟩
    split at hsum
    · exact absurd hsum Rolling.not_yields_failed
    · next hfits =>
        obtain ⟨rfl, rfl⟩ := Rolling.yields_done_iff.mp hsum
        exact ⟨(List.append_nil first).symm ▸ hpool, hfits⟩
  · rintro ⟨hpool, hfits⟩
    refine ⟨pool, draws, [], (List.append_nil draws).symm, hpool, ?_⟩
    rw [if_neg hfits]
    exact .done

/-- The dice of contributions record all draws, group by group. -/
theorem map_draw_contributions {op : Operator} {terms : List Term}
    {rolled : List Contribution} (h : (contributions build op terms).Yields draws rolled) :
    (rolled.flatMap Contribution.rolled).map Die.draw = draws := by
  induction terms generalizing op draws rolled with
  | nil =>
      obtain ⟨rfl, rfl⟩ := Rolling.yields_done_iff.mp h
      rfl
  | cons term more ih =>
      cases term with
      | operator next => exact ih h
      | constant value =>
          obtain ⟨others, hmore, rfl⟩ := Rolling.yields_bind_done_iff.mp h
          rw [List.flatMap_cons, Contribution.rolled, List.nil_append]
          exact ih hmore
      | dice group =>
          obtain ⟨pool, first, second, rfl, hpool, h⟩ := Rolling.yields_bind_iff.mp h
          obtain ⟨others, hmore, rfl⟩ := Rolling.yields_bind_done_iff.mp h
          rw [List.flatMap_cons, Contribution.rolled, List.map_append,
            DiceGroup.map_draw_roll (DiceGroup.yields_rollSummed_iff.mp hpool).1, ih hmore]

/-- The dice of an outcome record all draws of its roll. -/
theorem Expression.map_draw_roll {expression : Expression} {outcome : Outcome}
    (h : (expression.roll build).Yields draws outcome) : outcome.dice.map Die.draw = draws := by
  rw [roll] at h
  split at h
  · exact absurd h Rolling.not_yields_failed
  · obtain ⟨rolled, hrolled, rfl⟩ := Rolling.yields_bind_done_iff.mp h
    exact map_draw_contributions hrolled

/-! ### Sources -/

/-- A list of values answers the draws that show them, and the others stay unused. -/
theorem Replay.answers (draws : List Draw) (unused : List UInt32) :
    DieSource.Answers (⟨draws.map Draw.value ++ unused⟩ : Replay) draws ⟨unused⟩ := by
  induction draws with
  | nil => exact .nil
  | cons first draws ih => exact .cons rfl ih

/-- A source, with the sides of every die it was asked for so far and its answers. -/
structure Observed (σ : Type) where
  source : σ
  asked : List (UInt32 × Except Shortage UInt32)

instance {σ : Type} [DieSource σ] : DieSource (Observed σ) where
  draw sides observed :=
    let (answer, source) := DieSource.draw sides observed.source
    (answer, ⟨source, observed.asked ++ [(sides, answer)]⟩)

/-- A source answers the same when it is observed, and every draw is written down. -/
theorem DieSource.Answers.observed {σ : Type} [DieSource σ] {source left : σ}
    (h : Answers source draws left) (asked : List (UInt32 × Except Shortage UInt32)) :
    Answers (⟨source, asked⟩ : Observed σ) draws
      ⟨left, asked ++ draws.map fun draw => (draw.sides, .ok draw.value)⟩ := by
  induction h generalizing asked with
  | nil =>
      rw [List.map_nil, List.append_nil]
      exact .nil
  | @cons source between left sides value draws hfirst _ ih =>
      have hdraw : draw sides (⟨source, asked⟩ : Observed σ) =
          (.ok value, ⟨between, asked ++ [(sides, .ok value)]⟩) := by
        simp only [draw, hfirst]
      have hmore := ih (asked ++ [(sides, .ok value)])
      rw [List.append_assoc] at hmore
      exact .cons hdraw hmore

/-- **An outcome can be rolled again.** When a roll comes to an outcome, its dice are what the
source was asked for, one by one and in this order, with the values it answered. A source that
gives their values gives the outcome again, and what it holds behind them stays unused. -/
theorem Expression.roll_replay {σ : Type} [DieSource σ] {expression : Expression}
    {source left : σ} {outcome : Outcome}
    (h : (expression.roll build).run source = (.ok outcome, left)) :
    (expression.roll build).run (⟨source, []⟩ : Observed σ) =
      (.ok outcome, ⟨left, outcome.dice.map fun die => (die.sides, .ok die.value)⟩) ∧
    ∀ unused : List UInt32,
      (expression.roll build).run (⟨outcome.replay.values ++ unused⟩ : Replay) =
        (.ok outcome, ⟨unused⟩) := by
  obtain ⟨draws, hyields, hanswers⟩ := Rolling.run_eq_ok_iff.mp h
  obtain rfl : outcome.dice.map Die.draw = draws := Expression.map_draw_roll hyields
  constructor
  · have hobserved := hanswers.observed []
    rw [List.map_map] at hobserved
    exact Rolling.run_eq_ok_iff.mpr ⟨_, hyields, hobserved⟩
  · intro unused
    have hreplay := Replay.answers (outcome.dice.map Die.draw) unused
    rw [List.map_map] at hreplay
    exact Rolling.run_eq_ok_iff.mpr ⟨_, hyields, hreplay⟩

/-- A reroll and an explosion, rolled with a stepper and then with the values of the seven
dice, of which one does not count. -/
theorem Expression.roll_replay_of_stepper :
    ∃ (expression : Expression) (outcome : Outcome),
      expression.text = "4d6r1-1d8!+2" ∧
      expression.roll.run (⟨5, 7⟩ : Stepper) = (.ok outcome, ⟨54, 7⟩) ∧
      outcome.rolls = [5, 6, 2, 3, 8, 7] ∧
      expression.roll.run (⟨[5, 6, 1, 2, 3, 8, 7, 4, 1]⟩ : Replay) =
        (.ok outcome, ⟨[4, 1]⟩) := by
  let expression : Expression :=
    ⟨"", [.dice ⟨4, 6, [.reroll 1], by decide⟩, .operator .minus,
      .dice ⟨1, 8, [.explode none], by decide⟩, .operator .plus, .constant 2]⟩
  let outcome : Outcome :=
    { written := "", rolls := [5, 6, 2, 3, 8, 7], modifiers := .ofConstants [2], total := 3
      output := ": [5, 6, 2, 3, 8, 7] (+2) = 3"
      dice := [⟨6, 5, true⟩, ⟨6, 6, true⟩, ⟨6, 1, false⟩, ⟨6, 2, true⟩, ⟨6, 3, true⟩,
        ⟨8, 8, true⟩, ⟨8, 7, true⟩] }
  have hrun : expression.roll.run (⟨5, 7⟩ : Stepper) = (.ok outcome, ⟨54, 7⟩) := by
    decide +kernel
  exact ⟨expression, outcome, by decide +kernel, hrun, rfl,
    (Expression.roll_replay hrun).2 [4, 1]⟩

end Dicebox
