import Mathlib.Data.List.TakeWhile
import Dicebox.Proofs.KeptCount
import Dicebox.Proofs.Supply

/-!
# What rerolls and explosions add

A generator goes through dice from the first to the last, and the dice that it adds stand at the
end of those that it is still going through. So how many dice it adds cannot be said by the dice
that were there before: a die that was added can trigger in turn. It can be said by the dice that
are there at the end. Of them, as they were before the generator settled any, as many trigger as
dice were added, unless the budget was used up first; and those that were settled are the first of
them.

This alone does not settle how many dice there are, because dice that nobody asked for could
trigger each other. Every die that is added therefore has a die in front of it that triggers it:
before the n-th one, at least n have triggered.

## Main definitions

* `Pool.settleFirst` — settles the first dice that trigger.
* `Die.isLow`, `Die.isHigh` — the dice that rerolls and explosions are for.

## Main results

* `Pool.exists_added_of_cascade` — what going through dice comes to.
* `Qualifier.run_reroll` — what a reroll does to a pool.
* `Qualifier.run_explode` — what an explosion does to a pool.
-/

namespace Dicebox

variable {sides : UInt32} {triggers : Die → Bool} {settle : Die → Die} {draws : List Draw}

namespace Pool

/-! ### Going through dice -/

/-- The dice, with the first `n` of those that trigger settled, or all of them if they are fewer. -/
def settleFirst (triggers : Die → Bool) (settle : Die → Die) : Nat → List Die → List Die
  | 0, dice => dice
  | _ + 1, [] => []
  | n + 1, die :: more =>
    if triggers die then settle die :: settleFirst triggers settle n more
    else die :: settleFirst triggers settle (n + 1) more

@[simp] theorem settleFirst_zero (dice : List Die) : settleFirst triggers settle 0 dice = dice := by
  cases dice <;> rfl

/-- Dice that do not trigger stay as they are. -/
theorem settleFirst_append {n : Nat} {front : List Die} (h : ∀ die ∈ front, triggers die = false)
    (dice : List Die) :
    settleFirst triggers settle n (front ++ dice) =
      front ++ settleFirst triggers settle n dice := by
  induction front with
  | nil => rfl
  | cons die front ih =>
      obtain ⟨hdie, hfront⟩ := List.forall_mem_cons.mp h
      cases n with
      | zero => rw [settleFirst_zero, settleFirst_zero]
      | succ n =>
          rw [List.cons_append, settleFirst, if_neg (by simp [hdie]), ih hfront, List.cons_append]

/-- What going through dice comes to. The dice that are added, all of which are kept, stand behind
the others. Among all of them as many trigger as dice are added, or more if the budget is used up,
and the first of these are settled. Every die that is added is triggered by a die in front of it. -/
theorem exists_added_of_cascade {budget : Nat} {dice result : List Die}
    (h : (cascade triggers settle sides budget dice).Yields draws result) :
    ∃ added : List Die, added.map Die.draw = draws ∧ (∀ die ∈ added, die.kept) ∧
      added.length = min budget ((dice ++ added).countP triggers) ∧
      (∀ n < added.length, n < (dice ++ added.take n).countP triggers) ∧
      result = settleFirst triggers settle added.length (dice ++ added) := by
  induction budget generalizing dice draws result with
  | zero =>
      obtain ⟨rfl, rfl⟩ := Rolling.yields_done_iff.mp h
      refine ⟨[], rfl, nofun, (Nat.zero_min _).symm, nofun, ?_⟩
      rw [List.append_nil, List.length_nil, settleFirst_zero]
  | succ budget ih =>
      rw [cascade] at h
      have hfront : ∀ die ∈ dice.takeWhile (!triggers ·), triggers die = false := fun die hdie => by
        simpa using List.mem_takeWhile_imp hdie
      have hnone : (dice.takeWhile (!triggers ·)).countP triggers = 0 :=
        List.countP_eq_zero.mpr fun die hdie => by simp [hfront die hdie]
      have hwhole := List.takeWhile_append_dropWhile (p := (!triggers ·)) (l := dice)
      split at h
      · next hrest =>
          obtain ⟨rfl, rfl⟩ := Rolling.yields_done_iff.mp h
          rw [hrest, List.append_nil] at hwhole
          rw [hwhole] at hnone
          refine ⟨[], rfl, nofun, ?_, nofun, ?_⟩
          · rw [List.append_nil, hnone]
            rfl
          · rw [List.append_nil, List.length_nil, settleFirst_zero]
      · next die more hdie =>
          obtain ⟨first, front, back, rfl, hadded, h⟩ := Rolling.yields_bind_iff.mp h
          obtain ⟨rest, hrest, rfl⟩ := Rolling.yields_bind_done_iff.mp h
          obtain rfl : front = [first.draw] := draw_rollDie hadded
          obtain ⟨added, rfl, hkept, hlength, hcaused, rfl⟩ := ih hrest
          have htrigger : triggers die = true := by
            have hhead := List.head?_dropWhile_not (fun die => !triggers die) dice
            rw [hdie] at hhead
            simpa using hhead
          rw [hdie] at hwhole
          -- The die that triggers is gone through, and the one that it adds stands behind all.
          have hbehind (later : List Die) :
              dice ++ first :: later =
                dice.takeWhile (!triggers ·) ++ die :: (more ++ [first] ++ later) := by
            conv_lhs => rw [← hwhole]
            simp
          have hcount (later : List Die) : (dice ++ first :: later).countP triggers =
              (more ++ [first] ++ later).countP triggers + 1 := by
            rw [hbehind, List.countP_append, hnone, List.countP_cons_of_pos htrigger, Nat.zero_add]
          refine ⟨first :: added, rfl, ?_, ?_, ?_, ?_⟩
          · exact List.forall_mem_cons.mpr ⟨kept_rollDie hadded, hkept⟩
          · rw [hcount, List.length_cons, hlength, Nat.add_min_add_right]
          · rintro (_ | n) hn
            · rw [List.take_zero, List.append_nil, ← hwhole, List.countP_append,
                List.countP_cons_of_pos htrigger]
              omega
            · rw [List.take_succ_cons, hcount]
              exact Nat.succ_lt_succ (hcaused n (Nat.lt_of_succ_lt_succ hn))
          · rw [hbehind, settleFirst_append hfront, List.length_cons, settleFirst,
              if_pos htrigger]

/-- When no more dice trigger than are settled, all of them are. -/
theorem settleFirst_of_countP_le {n : Nat} {dice : List Die} (h : dice.countP triggers ≤ n) :
    settleFirst triggers settle n dice =
      dice.map fun die => if triggers die then settle die else die := by
  induction dice generalizing n with
  | nil => cases n <;> rfl
  | cons die dice ih =>
      rw [List.countP_cons] at h
      rw [List.map_cons]
      cases n with
      | zero =>
          rw [settleFirst_zero, if_neg (by intro htrigger; simp [htrigger] at h), ← ih (n := 0),
            settleFirst_zero]
          omega
      | succ n =>
          rw [settleFirst]
          split
          · next htrigger =>
              rw [if_pos htrigger] at h
              rw [ih (Nat.le_of_succ_le_succ h)]
          · next htrigger =>
              rw [if_neg htrigger] at h
              rw [ih h]

/-- Settling dice that stay as they are changes nothing. -/
theorem settleFirst_id (n : Nat) (dice : List Die) : settleFirst triggers id n dice = dice := by
  induction dice generalizing n with
  | nil => cases n <;> rfl
  | cons die dice ih =>
      cases n with
      | zero => rfl
      | succ n =>
          rw [settleFirst, ih, ih]
          split <;> rfl

/-- When dice are settled by dropping them, they are dropped at the first places of dice that
trigger. -/
theorem settleFirst_drop (n : Nat) (dice : List Die) :
    settleFirst triggers Die.drop n dice = dropAt ((dice.findIdxs triggers).take n) dice := by
  suffices h : ∀ start, settleFirst triggers Die.drop n dice =
      (dice.zipIdx start).map fun entry =>
        if ((dice.findIdxs triggers start).take n).contains entry.2 then entry.1.drop
        else entry.1 from h 0
  intro start
  induction dice generalizing n start with
  | nil => cases n <;> rfl
  | cons die dice ih =>
      have hlater (place : Nat) (hplace : place ∈ dice.findIdxs triggers (start + 1)) :
          start < place := List.ge_of_mem_findIdxs place hplace
      cases n with
      | zero => simp
      | succ n =>
          rw [settleFirst, List.zipIdx_cons, List.map_cons, List.findIdxs_cons]
          split
          · rw [ih n (start + 1), List.take_succ_cons]
            refine congr (congrArg _ ?_) (List.map_congr_left fun entry hentry => ?_)
            · simp
            · have hne : entry.2 ≠ start := by
                have := List.le_snd_of_mem_zipIdx hentry
                omega
              simp [hne]
          · rw [ih (n + 1) (start + 1)]
            refine congr (congrArg _ ?_) rfl
            have hnot : start ∉ (dice.findIdxs triggers (start + 1)).take (n + 1) := fun hmem =>
              Nat.lt_irrefl start (hlater start (List.mem_of_mem_take hmem))
            simp [hnot]

end Pool

/-! ### Generators -/

/-- Whether a die counts and shows the threshold or less. -/
def Die.isLow (threshold : UInt32) (die : Die) : Bool :=
  die.kept && decide (die.value ≤ threshold)

/-- Whether a die counts and shows the threshold or more. -/
def Die.isHigh (threshold : UInt32) (die : Die) : Bool :=
  die.kept && decide (threshold ≤ die.value)

variable {σ : Type} [DieSource σ] {pool : Pool} {source : σ}

namespace Qualifier

/-- A generator that a source supplies with a hundred dice comes to its end. -/
theorem run_eq_ok_of_supplies {qualifier : Qualifier} (hphase : qualifier.phase = .generate)
    (h : DieSource.Supplies pool.sides 100 source) :
    ∃ after left, (qualifier.apply pool).run source = (.ok after, left) := by
  have hasks := qualifier.apply_asksUpTo pool
  rw [if_pos hphase] at hasks
  exact (qualifier.apply_onlyRolls rfl).run_eq_ok hasks h

/-- What a generator comes to that goes through the dice of its pool. The dice that it adds have the
sides of the pool. -/
theorem exists_added_of_yields (triggers : Die → Bool) (settle : Die → Die) {after : Pool}
    (h : (Pool.cascade triggers settle pool.sides extraDice pool.dice >>= fun dice =>
      .done { pool with dice }).Yields draws after) :
    ∃ added : List Die, added.map Die.draw = draws ∧
      (∀ die ∈ added, die.kept ∧ die.sides = pool.sides) ∧
      added.length = min 100 ((pool.dice ++ added).countP triggers) ∧
      (∀ n < added.length, n < (pool.dice ++ added.take n).countP triggers) ∧
      after = ⟨pool.sides, Pool.settleFirst triggers settle added.length (pool.dice ++ added)⟩ := by
  obtain ⟨dice, hdice, rfl⟩ := Rolling.yields_bind_done_iff.mp h
  have hshows :=
    (Pool.cascade_onlyRolls triggers settle extraDice pool.dice).always draws dice hdice
  obtain ⟨added, rfl, hkept, hlength, hcaused, rfl⟩ := Pool.exists_added_of_cascade hdice
  have hsides (die : Die) (hdie : die ∈ added) : die.sides = pool.sides :=
    (hshows.1 die.draw (List.mem_map_of_mem hdie)).1
  exact ⟨added, rfl, fun die hdie => ⟨hkept die hdie, hsides die hdie⟩, hlength, hcaused, rfl⟩

/-- **What a reroll does.** On a source that shows faces for a hundred dice of its pool, a reroll
comes to its end. Whenever it does, the dice that were added stand behind the others, in the order
in which the source gave them, all of them with the sides of the pool. Of all these dice, as they
were before one was dropped, the low ones are those that count and show the threshold or less. As
many dice were added as there are low ones, but no more than a hundred, and each has a low one in
front of it for which it was added. The dice that were dropped are the first so many of the low
ones; the others are kept or not as they were, and all show what they showed. The number of kept
dice is the same as before, and below a hundred new dice no low one is left. -/
theorem run_reroll {threshold : UInt32} :
    (DieSource.Supplies pool.sides 100 source →
      ∃ after left, ((reroll threshold).apply pool).run source = (.ok after, left)) ∧
    ∀ after left, ((reroll threshold).apply pool).run source = (.ok after, left) →
      ∃ (added : List Die) (low : List Nat),
        DieSource.Answers source (added.map Die.draw) left ∧
        (∀ die ∈ added, die.kept ∧ die.sides = pool.sides) ∧
        after.sides = pool.sides ∧
        after.dice.map Die.draw = pool.dice.map Die.draw ++ added.map Die.draw ∧
        low = (pool.dice ++ added).findIdxs (Die.isLow threshold) ∧
        added.length = min 100 low.length ∧
        (∀ n < added.length, n < (pool.dice ++ added.take n).countP (Die.isLow threshold)) ∧
        after.dice = Pool.dropAt (low.take added.length) (pool.dice ++ added) ∧
        after.keptCount = pool.keptCount ∧
        (added.length < 100 → ∀ die ∈ after.dice, die.kept → threshold < die.value) := by
  refine ⟨run_eq_ok_of_supplies rfl, fun after left h => ?_⟩
  obtain ⟨draws, hyields, hanswers⟩ := Rolling.run_eq_ok_iff.mp h
  have hdraws := map_draw_apply hyields
  have hcount := keptCount_of_generate rfl hyields
  obtain ⟨added, rfl, hadded, hlength, hcaused, rfl⟩ :=
    exists_added_of_yields (Die.isLow threshold) Die.drop hyields
  refine ⟨added, _, hanswers, hadded, rfl, hdraws, rfl, ?_, hcaused, Pool.settleFirst_drop _ _,
    hcount, fun hless die hdie hkept => ?_⟩
  · rw [List.length_findIdxs]
    exact hlength
  · -- Below the cap every low die is settled, so a kept die of the result is none of them.
    have hall : (pool.dice ++ added).countP (Die.isLow threshold) ≤ added.length := by omega
    simp only [Pool.settleFirst_of_countP_le hall] at hdie
    obtain ⟨first, -, rfl⟩ := List.mem_map.mp hdie
    split at hkept
    · cases hkept
    · next hlow =>
        rw [if_neg hlow]
        refine UInt32.not_le.mp fun hle => hlow ?_
        exact Bool.and_eq_true_iff.mpr ⟨hkept, decide_eq_true hle⟩

/-- A reroll of ones and twos among dice of which one has more sides and one was dropped before; a
die that is added is rerolled in turn. With a threshold above all faces, the cap ends the reroll. -/
theorem run_reroll_of_dropped :
    (∃ after left, ((reroll 2).apply ⟨6, [⟨6, 1, true⟩, ⟨20, 4, true⟩, ⟨6, 2, false⟩,
        ⟨20, 2, true⟩]⟩).run (⟨[2, 5, 3, 6]⟩ : Replay) = (.ok after, left) ∧
      left = ⟨[6]⟩ ∧ after.keptCount = 3 ∧ ∀ die ∈ after.dice, die.kept → 2 < die.value) ∧
    ∃ after left, ((reroll 9).apply ⟨6, [⟨6, 6, true⟩]⟩).run (⟨5, 7⟩ : Stepper) =
      (.ok after, left) := by
  constructor
  · have hrun : ((reroll 2).apply ⟨6, [⟨6, 1, true⟩, ⟨20, 4, true⟩, ⟨6, 2, false⟩,
        ⟨20, 2, true⟩]⟩).run (⟨[2, 5, 3, 6]⟩ : Replay) =
        (.ok ⟨6, [⟨6, 1, false⟩, ⟨20, 4, true⟩, ⟨6, 2, false⟩, ⟨20, 2, false⟩, ⟨6, 2, false⟩,
          ⟨6, 5, true⟩, ⟨6, 3, true⟩]⟩, ⟨[6]⟩) := by decide +kernel
    obtain ⟨added, low, -, -, -, hdice, -, -, -, -, hcount, hlow⟩ := run_reroll.2 _ _ hrun
    have hlength : added.length = 3 := by
      have hall := congrArg List.length hdice
      simp only [List.length_append, List.length_map, List.length_cons, List.length_nil] at hall
      omega
    exact ⟨_, _, hrun, rfl, hcount, hlow (by omega)⟩
  · have hsupplies : DieSource.Supplies 6 100 (⟨5, 7⟩ : Stepper) :=
      Stepper.supplies (by decide) (by decide) (by decide)
    exact run_reroll.1 hsupplies

/-- **What an explosion does.** On a source that shows faces for a hundred dice of its pool, an
explosion comes to its end. Whenever it does, no die has changed, and the dice that were added stand
behind the others, in the order in which the source gave them, all of them kept and with the sides
of the pool. Among all of these dice, as many count and show the threshold or more as dice were
added, unless a hundred were; and each die that was added has one of them in front of it for which
it was added. Without a threshold of its own, the threshold is the highest face. -/
theorem run_explode {threshold : Option UInt32} :
    (DieSource.Supplies pool.sides 100 source →
      ∃ after left, ((explode threshold).apply pool).run source = (.ok after, left)) ∧
    ∀ after left, ((explode threshold).apply pool).run source = (.ok after, left) →
      ∃ added : List Die,
        DieSource.Answers source (added.map Die.draw) left ∧
        (∀ die ∈ added, die.kept ∧ die.sides = pool.sides) ∧
        after = ⟨pool.sides, pool.dice ++ added⟩ ∧
        added.length = min 100 (after.dice.countP (Die.isHigh (threshold.getD pool.sides))) ∧
        ∀ n < added.length,
          n < (pool.dice ++ added.take n).countP (Die.isHigh (threshold.getD pool.sides)) := by
  refine ⟨run_eq_ok_of_supplies rfl, fun after left h => ?_⟩
  obtain ⟨draws, hyields, hanswers⟩ := Rolling.run_eq_ok_iff.mp h
  obtain ⟨added, rfl, hadded, hlength, hcaused, hafter⟩ :=
    exists_added_of_yields (Die.isHigh (threshold.getD pool.sides)) id hyields
  obtain rfl : after = ⟨pool.sides, pool.dice ++ added⟩ := by
    rw [hafter, Pool.settleFirst_id]
  exact ⟨added, hanswers, hadded, rfl, hlength, hcaused⟩

/-- Sixes explode, those that are added too, but not the one that was dropped before. With a
threshold that every face reaches, the cap ends the explosion. -/
theorem run_explode_of_dropped :
    (∃ added : List Die, added.length = 2 ∧
      ((explode none).apply ⟨6, [⟨6, 6, true⟩, ⟨6, 6, false⟩, ⟨6, 3, true⟩]⟩).run
        (⟨[6, 2, 6]⟩ : Replay) =
      (.ok ⟨6, [⟨6, 6, true⟩, ⟨6, 6, false⟩, ⟨6, 3, true⟩] ++ added⟩, ⟨[6]⟩)) ∧
    ∃ after left, ((explode (some 1)).apply ⟨6, [⟨6, 4, true⟩]⟩).run (⟨5, 7⟩ : Stepper) =
      (.ok after, left) := by
  constructor
  · have hrun : ((explode none).apply ⟨6, [⟨6, 6, true⟩, ⟨6, 6, false⟩, ⟨6, 3, true⟩]⟩).run
        (⟨[6, 2, 6]⟩ : Replay) = (.ok ⟨6, [⟨6, 6, true⟩, ⟨6, 6, false⟩, ⟨6, 3, true⟩,
          ⟨6, 6, true⟩, ⟨6, 2, true⟩]⟩, ⟨[6]⟩) := by decide +kernel
    obtain ⟨added, -, -, hafter, hlength, -⟩ := run_explode.2 _ _ hrun
    refine ⟨added, hlength.trans (by decide), ?_⟩
    rw [hrun, hafter]
  · have hsupplies : DieSource.Supplies 6 100 (⟨5, 7⟩ : Stepper) :=
      Stepper.supplies (by decide) (by decide) (by decide)
    exact run_explode.1 hsupplies

end Qualifier

end Dicebox
