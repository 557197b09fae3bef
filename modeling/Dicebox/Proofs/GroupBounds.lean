import Mathlib.Algebra.Order.BigOperators.Group.List
import Dicebox.Proofs.Cascades
import Dicebox.Proofs.Reading
import Dicebox.Proofs.Sums

/-!
# How much a group can come to

The sum of the kept dice of a group is added up without saturation, so it would overflow if it grew
too large. How large it can grow follows from the expression alone. Rerolls replace dice and add
none that count; every explosion adds at most a hundred that do; and a selection only takes dice
away. So the number of kept dice has a bound, and the sum has the bound that they all show their
highest face. At the lower end, a group without a flaw keeps a die, which shows at least one.

## Main definitions

* `DiceGroup.rerolls`, `DiceGroup.explosions` — how many of each a group carries.

## Main results

* `Pool.keptCount_qualify_le` — qualifiers raise the number of kept dice by explosions only.
* `DiceGroup.keptCount_le`, `DiceGroup.one_le_keptCount` — how many dice a group keeps.
* `Pool.toInt_foldl_take` — every running sum of a pool is exact if its total is an amount.
* `DiceGroup.roll_bounds` — the bounds of a group.
-/

namespace Dicebox

variable {group : DiceGroup} {pool after : Pool} {draws : List Draw} {qualifiers : List Qualifier}

/-- Whether a qualifier is a reroll. -/
def Qualifier.rerolls : Qualifier → Bool
  | reroll _ => true
  | select _ _ | explode _ => false

/-- Every qualifier belongs to one of the two stages. -/
theorem countP_stages (p : Qualifier → Bool) (qualifiers : List Qualifier) :
    (generators qualifiers).countP p + (selections qualifiers).countP p = qualifiers.countP p := by
  induction qualifiers with
  | nil => rfl
  | cons first qualifiers ih =>
      rw [List.countP_cons, ← ih]
      cases hphase : first.phase with
      | generate =>
          obtain ⟨hgenerators, hselections⟩ := stages_cons_of_generate hphase qualifiers
          rw [hgenerators, hselections, List.countP_cons]
          omega
      | filter =>
          obtain ⟨hgenerators, hselections⟩ := stages_cons_of_filter hphase qualifiers
          rw [hgenerators, hselections, List.countP_cons]
          omega

namespace DiceGroup

/-- The number of rerolls that a group carries. -/
def rerolls (group : DiceGroup) : Nat :=
  group.qualifiers.countP Qualifier.rerolls

/-- The number of explosions that a group carries. -/
def explosions (group : DiceGroup) : Nat :=
  group.qualifiers.countP Qualifier.explodes

/-- The generators of a group are its rerolls and its explosions. -/
theorem countP_generate (group : DiceGroup) :
    group.qualifiers.countP (·.phase = .generate) = group.rerolls + group.explosions := by
  rw [rerolls, explosions]
  induction group.qualifiers with
  | nil => rfl
  | cons qualifier more ih =>
      rw [List.countP_cons, List.countP_cons, List.countP_cons, ih]
      cases qualifier <;> simp [Qualifier.phase, Qualifier.rerolls, Qualifier.explodes] <;> omega

end DiceGroup

/-! ### Dice -/

/-- A qualifier raises the number of kept dice by a hundred at most, and only if it explodes. -/
theorem Qualifier.keptCount_apply_le (qualifier : Qualifier)
    (h : (qualifier.apply pool).Yields draws after) :
    after.keptCount ≤ pool.keptCount + 100 * if qualifier.explodes then 1 else 0 := by
  cases hphase : qualifier.phase with
  | generate =>
      have hasks := (qualifier.apply_asksUpTo pool).length_le h
      have hdraws := congrArg List.length (qualifier.map_draw_apply h)
      rw [if_pos hphase, extraDice] at hasks
      rw [List.length_map, List.length_append, List.length_map] at hdraws
      rw [Qualifier.keptCount_of_generate hphase h]
      split <;> omega
  | filter =>
      cases qualifier with
      | reroll | explode => cases hphase
      | select which n =>
          obtain ⟨-, rfl⟩ := Rolling.yields_done_iff.mp h
          rw [which.keptCount_apply]
          omega

namespace Pool

/-- Selections add no kept die, and every explosion adds a hundred at most. -/
theorem keptCount_qualify_le (h : (pool.qualify qualifiers).Yields draws after) :
    after.keptCount ≤ pool.keptCount + 100 * qualifiers.countP Qualifier.explodes := by
  induction qualifiers generalizing pool draws with
  | nil =>
      obtain ⟨-, rfl⟩ := Rolling.yields_done_iff.mp h
      exact Nat.le_add_right _ _
  | cons qualifier more ih =>
      obtain ⟨between, first, second, rfl, hbetween, hrest⟩ := Rolling.yields_bind_iff.mp h
      have hstep := qualifier.keptCount_apply_le hbetween
      have hmore := ih hrest
      rw [List.countP_cons]
      omega

/-- Generators take no kept die away. -/
theorem le_keptCount_qualify (hphase : ∀ qualifier ∈ qualifiers, qualifier.phase = .generate)
    (h : (pool.qualify qualifiers).Yields draws after) : pool.keptCount ≤ after.keptCount := by
  induction qualifiers generalizing pool draws with
  | nil =>
      obtain ⟨-, rfl⟩ := Rolling.yields_done_iff.mp h
      exact Nat.le_refl _
  | cons qualifier more ih =>
      obtain ⟨hfirst, hothers⟩ := List.forall_mem_cons.mp hphase
      obtain ⟨between, first, second, rfl, hbetween, hrest⟩ := Rolling.yields_bind_iff.mp h
      have hstep := Qualifier.keptCount_of_generate hfirst hbetween
      exact Nat.le_trans (hstep ▸ Nat.le_add_right _ _) (ih hothers hrest)

end Pool

/-! ### Sums -/

/-- Kept dice that show faces add up to one for each of them at least, and to the highest face for
each of them at most. -/
theorem keptTotal_bounds {dice : List Die} {sides : UInt32}
    (h : ∀ die ∈ dice, 1 ≤ die.value ∧ die.value ≤ sides) :
    dice.countP Die.kept ≤ keptTotal dice ∧
      keptTotal dice ≤ dice.countP Die.kept * sides.toNat := by
  have hvalues : ∀ n ∈ (dice.filter Die.kept).map fun die => die.value.toNat,
      1 ≤ n ∧ n ≤ sides.toNat := by
    intro n hn
    obtain ⟨die, hdie, rfl⟩ := List.mem_map.mp hn
    obtain ⟨hpos, hle⟩ := h die (List.mem_filter.mp hdie).1
    exact ⟨UInt32.le_iff_toNat_le.mp hpos, UInt32.le_iff_toNat_le.mp hle⟩
  have hlow := List.card_nsmul_le_sum _ 1 fun n hn => (hvalues n hn).1
  have hhigh := List.sum_le_card_nsmul _ sides.toNat fun n hn => (hvalues n hn).2
  rw [List.length_map, ← List.countP_eq_length_filter, Nat.nsmul_eq_mul] at hlow hhigh
  rw [Nat.mul_one] at hlow
  exact ⟨hlow, hhigh⟩

/-- No addition on the way to the sum of a pool wraps, if its total is an amount. -/
theorem Pool.toInt_foldl_take (h : keptTotal pool.dice ≤ 2 ^ 63 - 1) (n : Nat) :
    ((pool.keptValues.take n).foldl (fun sum value => sum + .ofNat value.toNat)
        (0 : Amount)).toInt = ((pool.keptValues.take n).map UInt32.toNat).sum := by
  have hzero : (0 : Amount).toInt = 0 := rfl
  have htake : ((pool.keptValues.take n).map UInt32.toNat).sum ≤ keptTotal pool.dice := by
    rw [← pool.sum_keptValues, ← List.sum_take_add_sum_drop (pool.keptValues.map _) n,
      List.map_take]
    exact Nat.le_add_right _ _
  rw [toInt_foldl_add, hzero, Int.zero_add]
  · exact Int.le_refl 0
  · rw [hzero]
    omega

/-! ### Groups -/

namespace DiceGroup

/-- A group keeps no more dice than its own and a hundred for each explosion. -/
theorem keptCount_le (h : group.roll.Yields draws pool) :
    pool.keptCount ≤ group.count.toNat + 100 * group.explosions := by
  obtain ⟨rolled, first, _, rfl, hrolled, hrest⟩ := Rolling.yields_bind_iff.mp h
  obtain ⟨generated, _, _, -, hgenerated, hselected⟩ := Rolling.yields_bind_iff.mp hrest
  have hcount := Pool.keptCount_eq_count hrolled
  have hgenerators := Pool.keptCount_qualify_le hgenerated
  have hselections := Pool.keptCount_qualify_le hselected
  have hstages := countP_stages Qualifier.explodes group.qualifiers
  rw [generators, selections] at hstages
  rw [explosions]
  omega

/-- What the kept dice of a group add up to is at most what they come to if all of them show the
highest face. -/
theorem keptTotal_le (h : group.roll.Yields draws pool) :
    keptTotal pool.dice ≤ (group.count.toNat + 100 * group.explosions) * group.sides.toNat := by
  have hfaces (die : Die) (hdie : die ∈ pool.dice) := (shows_of_yields h hdie).2
  have hkept : pool.keptCount ≤ group.count.toNat + 100 * group.explosions := keptCount_le h
  rw [pool.keptCount_eq_countP] at hkept
  exact Nat.le_trans (keptTotal_bounds hfaces).2 (Nat.mul_le_mul_right group.sides.toNat hkept)

/-- A group draws its own dice at least. -/
theorem le_length_draws (h : group.roll.Yields draws pool) :
    group.count.toNat ≤ draws.length := by
  obtain ⟨rolled, first, others, rfl, hrolled, -⟩ := Rolling.yields_bind_iff.mp h
  rw [← Pool.keptCount_eq_count hrolled, List.length_append, ← Pool.map_draw_roll hrolled,
    List.length_map]
  exact Nat.le_add_right_of_le (List.length_filter_le _ _)

/-- A group without a flaw keeps a die. -/
theorem one_le_keptCount (hflaw : group.flaw? = none) (h : group.roll.Yields draws pool) :
    1 ≤ pool.keptCount := by
  obtain ⟨rolled, first, _, rfl, hrolled, hrest⟩ := Rolling.yields_bind_iff.mp h
  obtain ⟨generated, _, _, -, hgenerated, hselected⟩ := Rolling.yields_bind_iff.mp hrest
  have hle : group.count.toNat ≤ generated.keptCount := by
    rw [← Pool.keptCount_eq_count hrolled]
    exact Pool.le_keptCount_qualify (fun _ h => (mem_generators.mp h).2) hgenerated
  obtain ⟨extra, hextra⟩ := Nat.exists_eq_add_of_le hle
  have hwritten := (flaw?_eq_none_iff_qualifierFlaw?.mp hflaw).2
  have hselections := (qualifierFlaw?_eq_none_iff_stages.mp hwritten).2
  have hpos : 1 ≤ group.count.toNat := UInt32.lt_iff_toNat_lt.mp group.count_pos
  obtain ⟨hcount, hone⟩ := Pool.keptCount_of_selections (fun _ h => (mem_selections.mp h).2)
    hselections hpos hextra hselected
  exact hcount ▸ Nat.le_add_right_of_le hone

/-- **How much a group can come to.** A group without a flaw is rolled to its end on every source
that shows faces for its own dice and a hundred more for each reroll and each explosion. Whenever it
is rolled, it draws its own dice at least and those dice at most, and keeps no more than its own and
a hundred for each explosion. What the kept dice add up to is one at least, and at most what they
come to if all show the highest face. If that is an amount, every running sum on the way to the sum
of the group is exact, and so is the sum. It is one for every group that is accepted under the
limits that go without saying, unless it carries nine trillion explosions or more. -/
theorem roll_bounds {σ : Type} [DieSource σ] (hflaw : group.flaw? = none) {source : σ} :
    (DieSource.Supplies group.sides
        (group.count.toNat + 100 * (group.rerolls + group.explosions)) source →
      ∃ pool left, group.roll.run source = (.ok pool, left)) ∧
    (∀ pool left, group.roll.run source = (.ok pool, left) →
      (∃ draws : List Draw, DieSource.Answers source draws left ∧ pool.dice.map Die.draw = draws ∧
        group.count.toNat ≤ draws.length ∧
        draws.length ≤ group.count.toNat + 100 * (group.rerolls + group.explosions)) ∧
      pool.keptCount ≤ group.count.toNat + 100 * group.explosions ∧
      1 ≤ keptTotal pool.dice ∧
      keptTotal pool.dice ≤ (group.count.toNat + 100 * group.explosions) * group.sides.toNat ∧
      ((group.count.toNat + 100 * group.explosions) * group.sides.toNat ≤ 2 ^ 63 - 1 →
        (∀ n, ((pool.keptValues.take n).foldl (fun sum value => sum + .ofNat value.toNat)
            (0 : Amount)).toInt = ((pool.keptValues.take n).map UInt32.toNat).sum) ∧
          pool.keptSum.toInt = keptTotal pool.dice)) ∧
    ∀ text expression, parse {} text = .ok expression → .dice group ∈ expression.terms →
      group.explosions < 9 * 10 ^ 12 →
      (group.count.toNat + 100 * group.explosions) * group.sides.toNat ≤ 2 ^ 63 - 1 := by
  have hasks := group.roll_asksUpTo
  rw [countP_generate, extraDice] at hasks
  refine ⟨group.roll_onlyRolls.run_eq_ok hasks, fun pool left h => ?_, ?_⟩
  · obtain ⟨draws, hyields, hanswers⟩ := Rolling.run_eq_ok_iff.mp h
    have hfaces (die : Die) (hdie : die ∈ pool.dice) := (shows_of_yields hyields hdie).2
    have hlow := (keptTotal_bounds hfaces).1
    rw [← pool.keptCount_eq_countP] at hlow
    have htotal := keptTotal_le hyields
    refine ⟨⟨draws, hanswers, map_draw_roll hyields, le_length_draws hyields,
      hasks.length_le hyields⟩, keptCount_le hyields,
      Nat.le_trans (one_le_keptCount hflaw hyields) hlow, htotal,
      fun hbound => ⟨Pool.toInt_foldl_take (Nat.le_trans htotal hbound),
        Pool.toInt_keptSum (Nat.le_trans htotal hbound)⟩⟩
  · intro text expression hparse hgroup hfew
    obtain ⟨hcount, hsides⟩ :=
      (parse_eq_ok_iff.mp hparse).2.group_within (by decide) hgroup
    have hmost : group.count.toNat ≤ 1000 := UInt32.le_iff_toNat_le.mp hcount
    have hfaces : group.sides.toNat ≤ 10000 := UInt32.le_iff_toNat_le.mp hsides
    calc (group.count.toNat + 100 * group.explosions) * group.sides.toNat
        ≤ (1000 + 100 * (9 * 10 ^ 12)) * 10000 := Nat.mul_le_mul (by omega) hfaces
      _ ≤ 2 ^ 63 - 1 := by decide

/-- Dice that are rerolled and explode, all of which count in the end, and the same group as it is
accepted from notation. -/
theorem roll_bounds_of_exploding :
    ∃ (group : DiceGroup) (pool : Pool) (left : Replay), group.text = "3d6r1!!5" ∧
      group.flaw? = none ∧
      group.roll.run (⟨[1, 6, 4, 3, 5, 2, 6, 1]⟩ : Replay) = (.ok pool, left) ∧
      pool.keptCount ≤ 203 ∧ keptTotal pool.dice ≤ 203 * 6 ∧
      pool.keptSum.toInt = keptTotal pool.dice ∧
      (∃ pool left, group.roll.run (⟨5, 7⟩ : Stepper) = (.ok pool, left)) ∧
      ∃ expression : Expression, parse {} "3d6r!!5" = .ok expression ∧
        .dice group ∈ expression.terms ∧
        (group.count.toNat + 100 * group.explosions) * group.sides.toNat ≤ 2 ^ 63 - 1 := by
  let group : DiceGroup := ⟨3, 6, [.reroll 1, .explode none, .explode (some 5)], by decide⟩
  have hflaw : group.flaw? = none := by decide
  have hrun : group.roll.run (⟨[1, 6, 4, 3, 5, 2, 6, 1]⟩ : Replay) =
      (.ok ⟨6, [⟨6, 1, false⟩, ⟨6, 6, true⟩, ⟨6, 4, true⟩, ⟨6, 3, true⟩, ⟨6, 5, true⟩,
        ⟨6, 2, true⟩, ⟨6, 6, true⟩, ⟨6, 1, true⟩]⟩, ⟨[]⟩) := by decide +kernel
  have hparse : parse {} "3d6r!!5" = .ok ⟨"3d6r!!5", [.dice group]⟩ := by decide +kernel
  obtain ⟨-, hkept, -, htotal, hexact⟩ := (roll_bounds hflaw).2.1 _ _ hrun
  obtain ⟨hreturns, -, hdefault⟩ := @roll_bounds group Stepper _ hflaw ⟨5, 7⟩
  exact ⟨group, _, _, by decide +kernel, hflaw, hrun, hkept, htotal, (hexact (by decide)).2,
    hreturns (Stepper.supplies (by decide) (by decide) (by decide)), _, hparse, List.mem_cons_self,
    hdefault _ _ hparse List.mem_cons_self (by decide)⟩

end DiceGroup

end Dicebox
