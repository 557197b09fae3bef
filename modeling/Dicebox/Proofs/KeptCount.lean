import Dicebox.Proofs.Ranking
import Dicebox.Proofs.Stages

/-!
# How many dice are kept

The number of kept dice that is tracked through the qualifiers of a group, before any die is
rolled, leaves the dice out of account that explosions add; how many these are is only known in
the roll. When the dice are rolled, a reroll puts one kept die in the place of another, an
explosion adds kept dice, and a selection leaves what its rule says of the dice that are there.

A selection that drops dice drops the same number of either count, so the dice that explosions
added stay on top of the tracked number. A selection that keeps dice says itself how many, and
from then on the two counts are the same.

The dice that a qualifier adds are entered in a *ledger*. The ledger only watches the roll: without
it, the roll is the same.

## Main definitions

* `Pool.qualifyLedger`, `DiceGroup.rollLedger` — a roll with the ledger of its generators.
* `exploded` — the dice that explosions have added, by the ledger.

## Main results

* `DiceGroup.map_fst_rollLedger` — forgetting the ledger gives exactly the roll.
* `Pool.countP_kept_cascade` — the kept dice after dice were added.
* `Selection.keptCount_apply` — the kept dice after some were dropped by rank.
* `DiceGroup.keptCount_of_roll` — the kept dice of a group.
-/

namespace Dicebox

/-! ### The ledger -/

/-- Whether a qualifier is an explosion. -/
def Qualifier.explodes : Qualifier → Bool
  | explode _ => true
  | select _ _ | reroll _ => false

/-- Whether a qualifier says how many dice stay kept, and not how many are dropped. -/
def Qualifier.keeps : Qualifier → Bool
  | select .keepHighest _ | select .keepLowest _ => true
  | select .dropHighest _ | select .dropLowest _ | reroll _ | explode _ => false

/-- Lets qualifiers act on a pool, one after the other, and enters how many dice each adds. -/
def Pool.qualifyLedger (pool : Pool) : List Qualifier → Rolling (Pool × List (Qualifier × Nat))
  | [] => .done (pool, [])
  | qualifier :: more => do
    let between ← qualifier.apply pool
    let (after, ledger) ← between.qualifyLedger more
    return (after, (qualifier, between.dice.length - pool.dice.length) :: ledger)

/-- Rolls a group, and enters how many dice each generator adds. Selections add none. -/
def DiceGroup.rollLedger (group : DiceGroup) : Rolling (Pool × List (Qualifier × Nat)) := do
  let pool ← Pool.roll group.count.toNat group.sides
  let (pool, ledger) ← pool.qualifyLedger (generators group.qualifiers)
  return (← pool.qualify (selections group.qualifiers), ledger)

/-- The number of dice that explosions have added, by the ledger. -/
def exploded (ledger : List (Qualifier × Nat)) : Nat :=
  ((ledger.filter fun entry => entry.1.explodes).map Prod.snd).sum

/-- Forgetting the ledger, qualifiers act as they do. -/
theorem Pool.map_fst_qualifyLedger (pool : Pool) (qualifiers : List Qualifier) :
    (pool.qualifyLedger qualifiers >>= fun entered => .done entered.1) =
      pool.qualify qualifiers := by
  induction qualifiers generalizing pool with
  | nil => rfl
  | cons qualifier more ih =>
      rw [qualifyLedger, qualify, Rolling.bind_assoc]
      refine congrArg (qualifier.apply pool >>= ·) (funext fun between => ?_)
      rw [← ih between, Rolling.bind_assoc]
      rfl

/-- Forgetting the ledger, a group is rolled as it is. -/
theorem DiceGroup.map_fst_rollLedger (group : DiceGroup) :
    (group.rollLedger >>= fun entered => .done entered.1) = group.roll := by
  rw [rollLedger, roll, Rolling.bind_assoc]
  refine congrArg (Pool.roll group.count.toNat group.sides >>= ·) (funext fun pool => ?_)
  have hforget := pool.map_fst_qualifyLedger (generators group.qualifiers)
  rw [generators] at hforget
  rw [← hforget, Rolling.bind_assoc, Rolling.bind_assoc]
  refine congrArg (pool.qualifyLedger _ >>= ·) (funext fun entered => ?_)
  rw [Rolling.bind_assoc]
  exact Rolling.bind_done _

/-! ### Generators -/

variable {sides : UInt32} {draws : List Draw} {pool after : Pool}

/-- A die that was rolled is kept. -/
theorem kept_rollDie {die : Die} (h : (rollDie sides).Yields draws die) : die.kept = true := by
  obtain ⟨value, more, rfl, hnext⟩ := Rolling.yields_ask_iff.mp h
  split at hnext
  · obtain ⟨rfl, rfl⟩ := Rolling.yields_done_iff.mp hnext
    rfl
  · exact absurd hnext Rolling.not_yields_failed

/-- Dice rolled one after the other are kept. -/
theorem countP_kept_rollOnto {n : Nat} {rolled dice : List Die}
    (h : (rollOnto sides n rolled).Yields draws dice) :
    dice.countP Die.kept = rolled.countP Die.kept + n := by
  induction n generalizing rolled draws with
  | zero =>
      obtain ⟨rfl, rfl⟩ := Rolling.yields_done_iff.mp h
      rw [List.countP_reverse, Nat.add_zero]
  | succ n ih =>
      obtain ⟨die, first, second, rfl, hdie, hmore⟩ := Rolling.yields_bind_iff.mp h
      rw [ih hmore, List.countP_cons_of_pos (kept_rollDie hdie)]
      omega

namespace Pool

/-- The number of kept dice counts them. -/
theorem keptCount_eq_countP (pool : Pool) : pool.keptCount = pool.dice.countP Die.kept :=
  List.countP_eq_length_filter.symm

/-- All dice that a group begins with are kept. -/
theorem keptCount_eq_count {count : Nat} (h : (roll count sides).Yields draws pool) :
    pool.keptCount = count := by
  obtain ⟨dice, hdice, rfl⟩ := Rolling.yields_bind_done_iff.mp h
  rw [keptCount_eq_countP, countP_kept_rollOnto hdice, List.countP_nil, Nat.zero_add]

/-- When dice are added for kept dice, each new die is kept. If the die that triggers stays kept,
there is one more for every die that is added, and otherwise there are as many as before. -/
theorem countP_kept_cascade {triggers : Die → Bool} {settle : Die → Die} {stays : Bool}
    (htriggers : ∀ die, triggers die → die.kept)
    (hsettle : ∀ die, die.kept → (settle die).kept = stays) {budget : Nat}
    {dice result : List Die} (h : (cascade triggers settle sides budget dice).Yields draws result) :
    result.countP Die.kept = dice.countP Die.kept + if stays then draws.length else 0 := by
  induction budget generalizing dice draws result with
  | zero =>
      obtain ⟨rfl, rfl⟩ := Rolling.yields_done_iff.mp h
      simp
  | succ budget ih =>
      rw [cascade] at h
      split at h
      · obtain ⟨rfl, rfl⟩ := Rolling.yields_done_iff.mp h
        simp
      · next die more hdie =>
          obtain ⟨added, first, second, rfl, hadded, h⟩ := Rolling.yields_bind_iff.mp h
          obtain ⟨rest, hrest, rfl⟩ := Rolling.yields_bind_done_iff.mp h
          obtain rfl : first = [added.draw] := draw_rollDie hadded
          have htrigger : triggers die = true := by
            have hhead := List.head?_dropWhile_not (fun die => !triggers die) dice
            rw [hdie] at hhead
            simpa using hhead
          have hkept : die.kept = true := htriggers die htrigger
          have hwhole : dice.countP Die.kept =
              (dice.takeWhile (!triggers ·)).countP Die.kept + (more.countP Die.kept + 1) := by
            rw [← List.countP_cons_of_pos hkept, ← hdie, ← List.countP_append,
              List.takeWhile_append_dropWhile]
          have hmore := ih hrest
          rw [List.countP_append, List.countP_singleton, kept_rollDie hadded] at hmore
          rw [List.countP_append, List.countP_cons, hsettle die hkept, hmore, hwhole,
            List.length_append, List.length_singleton]
          cases stays with
          | true =>
              simp only [if_true]
              omega
          | false =>
              simp only [if_true, Bool.false_eq_true, if_false]
              omega

end Pool

/-- A generator changes the number of kept dice only by the dice that it adds, and only if it is
an explosion. -/
theorem Qualifier.keptCount_of_generate {qualifier : Qualifier}
    (hphase : qualifier.phase = .generate) (h : (qualifier.apply pool).Yields draws after) :
    after.keptCount = pool.keptCount +
      if qualifier.explodes then after.dice.length - pool.dice.length else 0 := by
  have hlength : after.dice.length = pool.dice.length + draws.length := by
    have hdraws := congrArg List.length (Qualifier.map_draw_apply h)
    rwa [List.length_map, List.length_append, List.length_map] at hdraws
  rw [hlength, Nat.add_sub_cancel_left, Pool.keptCount_eq_countP, Pool.keptCount_eq_countP]
  cases qualifier with
  | select => cases hphase
  | reroll threshold =>
      obtain ⟨dice, hdice, rfl⟩ := Rolling.yields_bind_done_iff.mp h
      have hdrop : ∀ die : Die, die.kept → die.drop.kept = false := fun _ _ => rfl
      refine Pool.countP_kept_cascade (fun die hdie => ?_) hdrop hdice
      exact (Bool.and_eq_true_iff.mp hdie).1
  | explode threshold =>
      obtain ⟨dice, hdice, rfl⟩ := Rolling.yields_bind_done_iff.mp h
      refine Pool.countP_kept_cascade (fun die hdie => ?_) (fun _ hkept => hkept) hdice
      exact (Bool.and_eq_true_iff.mp hdie).1

/-- Generators raise the number of kept dice by what explosions add. -/
theorem Pool.keptCount_of_generators {qualifiers : List Qualifier}
    (hphase : ∀ qualifier ∈ qualifiers, qualifier.phase = .generate)
    {ledger : List (Qualifier × Nat)}
    (h : (pool.qualifyLedger qualifiers).Yields draws (after, ledger)) :
    after.keptCount = pool.keptCount + exploded ledger := by
  induction qualifiers generalizing pool draws ledger with
  | nil =>
      obtain ⟨rfl, heq⟩ := Rolling.yields_done_iff.mp h
      cases heq
      rfl
  | cons qualifier more ih =>
      obtain ⟨hfirst, hothers⟩ := List.forall_mem_cons.mp hphase
      obtain ⟨between, first, second, rfl, hbetween, hrest⟩ := Rolling.yields_bind_iff.mp h
      obtain ⟨⟨after', entries⟩, hentries, heq⟩ := Rolling.yields_bind_done_iff.mp hrest
      cases heq
      rw [ih hothers hentries, Qualifier.keptCount_of_generate hfirst hbetween, exploded, exploded,
        List.filter_cons]
      split <;> simp [Nat.add_assoc]

/-! ### Selections -/

/-- A selection leaves as many kept dice as its rule says of those that there are. -/
theorem Selection.keptCount_apply (which : Selection) (n : UInt32) (pool : Pool) :
    (which.apply n.toNat pool).keptCount =
      min pool.keptCount ((Qualifier.select which n).keptAfter pool.keptCount) := by
  cases which with
  | keepHighest | keepLowest =>
      simp only [apply, Pool.keptCount_dropLowest, Pool.keptCount_dropHighest,
        Qualifier.keptAfter]
      omega
  | dropHighest | dropLowest =>
      simp only [apply, Pool.keptCount_dropLowest, Pool.keptCount_dropHighest,
        Qualifier.keptAfter]
      omega

/-- A selection that makes sense for the tracked number of kept dice leaves what its rule says of
this number. Dice on top of it stay, unless the selection says how many dice are kept. -/
theorem Selection.keptCount_apply_of_accepts {group : DiceGroup} {which : Selection} {n : UInt32}
    {kept extra : Nat} (h : (Qualifier.select which n).Accepts group.sides kept)
    (hkept : pool.keptCount = kept + extra) :
    (which.apply n.toNat pool).keptCount = (Qualifier.select which n).keptAfter kept +
        (if (Qualifier.select which n).keeps then 0 else extra) ∧
      1 ≤ (Qualifier.select which n).keptAfter kept := by
  obtain ⟨hone, hless⟩ := h
  rw [which.keptCount_apply, hkept]
  cases which with
  | keepHighest | keepLowest =>
      simp only [Qualifier.keptAfter, Qualifier.keeps, if_true]
      omega
  | dropHighest | dropLowest =>
      simp only [Qualifier.keptAfter, Qualifier.keeps, Bool.false_eq_true, if_false]
      omega

/-- Selections without a flaw leave the tracked number of dice kept, and the dice that there were
on top of it, unless one of them says how many dice are kept. -/
theorem Pool.keptCount_of_selections {group : DiceGroup} {kept extra : Nat}
    {qualifiers : List Qualifier} (hphase : ∀ qualifier ∈ qualifiers, qualifier.phase = .filter)
    (hflaw : group.qualifierFlaw? kept qualifiers = none) (hpos : 1 ≤ kept)
    (hkept : pool.keptCount = kept + extra) (h : (pool.qualify qualifiers).Yields draws after) :
    after.keptCount = keptThrough kept qualifiers +
        (if qualifiers.any Qualifier.keeps then 0 else extra) ∧
      1 ≤ keptThrough kept qualifiers := by
  induction qualifiers generalizing pool kept extra draws with
  | nil =>
      obtain ⟨rfl, rfl⟩ := Rolling.yields_done_iff.mp h
      exact ⟨hkept, hpos⟩
  | cons qualifier more ih =>
      obtain ⟨hfilter, hothers⟩ := List.forall_mem_cons.mp hphase
      obtain ⟨haccepts, hflaws⟩ := qualifierFlaw?_cons_eq_none_iff.mp hflaw
      cases qualifier with
      | reroll | explode => cases hfilter
      | select which n =>
          obtain ⟨hstep, hone⟩ := Selection.keptCount_apply_of_accepts haccepts hkept
          obtain ⟨hcount, hleft⟩ := ih hothers hflaws hone hstep h
          refine ⟨?_, hleft⟩
          rw [hcount, List.any_cons]
          cases (Qualifier.select which n).keeps with
          | true => simp only [if_true, Bool.true_or, ite_self, keptThrough, List.foldl_cons]
          | false => rfl

/-! ### Groups -/

/-- Only selections say how many dice are kept. -/
theorem any_keeps_selections (qualifiers : List Qualifier) :
    (selections qualifiers).any Qualifier.keeps = qualifiers.any Qualifier.keeps := by
  rw [selections, List.any_filter]
  refine congrArg (List.any qualifiers) (funext fun qualifier => ?_)
  cases qualifier <;> rfl

/-- **How many dice of a group are kept.** When a group without a flaw is rolled, the dice that are
kept in the end are exactly as many as its qualifiers leave by their written order, if one of them
keeps the highest or the lowest dice, and otherwise those and all dice that its explosions have
added. At least one die is always kept. -/
theorem DiceGroup.keptCount_of_roll {σ : Type} [DieSource σ] {group : DiceGroup}
    (hflaw : group.flaw? = none) {source left : σ} {pool : Pool}
    (h : group.roll.run source = (.ok pool, left)) :
    ∃ ledger, group.rollLedger.run source = (.ok (pool, ledger), left) ∧
      pool.keptCount = keptThrough group.count.toNat group.qualifiers +
        (if group.qualifiers.any Qualifier.keeps then 0 else exploded ledger) ∧
      1 ≤ pool.keptCount := by
  rw [← group.map_fst_rollLedger] at h
  obtain ⟨draws, hyields, hanswers⟩ := Rolling.run_eq_ok_iff.mp h
  obtain ⟨⟨pool', ledger⟩, hledger, rfl⟩ := Rolling.yields_bind_done_iff.mp hyields
  refine ⟨ledger, Rolling.run_eq_ok_iff.mpr ⟨draws, hledger, hanswers⟩, ?_⟩
  obtain ⟨rolled, _, _, -, hrolled, hrest⟩ := Rolling.yields_bind_iff.mp hledger
  obtain ⟨⟨generated, entries⟩, _, _, -, hgenerated, hrest⟩ := Rolling.yields_bind_iff.mp hrest
  obtain ⟨selected, hselected, heq⟩ := Rolling.yields_bind_done_iff.mp hrest
  cases heq
  have hgenerators := Pool.keptCount_of_generators (fun _ h => (mem_generators.mp h).2) hgenerated
  rw [Pool.keptCount_eq_count hrolled] at hgenerators
  have hwritten := (flaw?_eq_none_iff_qualifierFlaw?.mp hflaw).2
  have hselections := (qualifierFlaw?_eq_none_iff_stages.mp hwritten).2
  have hpos : 1 ≤ group.count.toNat := UInt32.lt_iff_toNat_lt.mp group.count_pos
  obtain ⟨hcount, hone⟩ := Pool.keptCount_of_selections (fun _ h => (mem_selections.mp h).2)
    hselections hpos hgenerators hselected
  rw [keptThrough_selections, any_keeps_selections] at hcount
  rw [keptThrough_selections] at hone
  exact ⟨hcount, hcount ▸ Nat.le_add_right_of_le hone⟩

/-- Four exploding dice of which ones are rerolled and two are dropped: the die that was added
stays on top of the two that are left. When three of them are kept in between, it does not. -/
theorem DiceGroup.keptCount_of_roll_of_exploding :
    (∃ (group : DiceGroup) (pool : Pool) (left : Replay), group.text = "4d6dl2r1!" ∧
      group.flaw? = none ∧
      group.roll.run (⟨[6, 1, 3, 4, 2, 5]⟩ : Replay) = (.ok pool, left) ∧
      pool.keptCount = 2 + 1) ∧
    ∃ (group : DiceGroup) (pool : Pool) (left : Replay), group.text = "4d6kh3r1!dl1" ∧
      group.flaw? = none ∧
      group.roll.run (⟨[6, 1, 3, 4, 2, 5]⟩ : Replay) = (.ok pool, left) ∧
      pool.keptCount = 2 := by
  constructor
  · let group : DiceGroup :=
      ⟨4, 6, [.select .dropLowest 2, .reroll 1, .explode none], by decide⟩
    let pool : Pool := ⟨6, [⟨6, 6, true⟩, ⟨6, 1, false⟩, ⟨6, 3, false⟩, ⟨6, 4, true⟩,
      ⟨6, 2, false⟩, ⟨6, 5, true⟩]⟩
    have hrun : group.roll.run (⟨[6, 1, 3, 4, 2, 5]⟩ : Replay) = (.ok pool, ⟨[]⟩) := by cbv
    have hentered : group.rollLedger.run (⟨[6, 1, 3, 4, 2, 5]⟩ : Replay) =
        (.ok (pool, [(.reroll 1, 1), (.explode none, 1)]), ⟨[]⟩) := by cbv
    refine ⟨group, pool, _, by decide +kernel, by decide, hrun, ?_⟩
    obtain ⟨ledger, hledger, hcount, -⟩ := DiceGroup.keptCount_of_roll (by decide) hrun
    rw [hentered] at hledger
    cases hledger
    exact hcount
  · let group : DiceGroup :=
      ⟨4, 6, [.select .keepHighest 3, .reroll 1, .explode none, .select .dropLowest 1], by decide⟩
    let pool : Pool := ⟨6, [⟨6, 6, true⟩, ⟨6, 1, false⟩, ⟨6, 3, false⟩, ⟨6, 4, false⟩,
      ⟨6, 2, false⟩, ⟨6, 5, true⟩]⟩
    have hrun : group.roll.run (⟨[6, 1, 3, 4, 2, 5]⟩ : Replay) = (.ok pool, ⟨[]⟩) := by cbv
    refine ⟨group, pool, _, by decide +kernel, by decide, hrun, ?_⟩
    obtain ⟨ledger, -, hcount, -⟩ := DiceGroup.keptCount_of_roll (by decide) hrun
    exact hcount

end Dicebox
