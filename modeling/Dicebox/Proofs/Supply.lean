import Dicebox.Proofs.Faces
import Dicebox.Proofs.Stages

/-!
# How many dice are asked for

A group asks for its dice, and every reroll and every explosion asks for at most a hundred more.
So a roll has its bound before any die is rolled, on the paths on which it fails as well, and a
source need not go on for ever: one that shows faces for that many dice brings the roll to its end.

## Main definitions

* `Rolling.AsksUpTo` — the computations that ask for no more than a number of dice.
* `DieSource.Supplies` — the sources that show faces for a number of dice.

## Main results

* `Rolling.AsksUpTo.bind` — two steps ask for the dice of both.
* `Qualifier.apply_asksUpTo`, `DiceGroup.roll_asksUpTo` — how many dice a qualifier and a group
  ask for.
* `Stepper.supplies` — how many dice a stepper shows faces for.
* `Rolling.OnlyRolls.run_eq_ok` — a source with enough dice brings a roll to its end.
-/

namespace Dicebox

variable {α β σ : Type} {sides : UInt32}

/-! ### Computations -/

namespace Rolling

/-- A computation asks for at most `n` dice, whatever they show. -/
def AsksUpTo : Nat → Rolling α → Prop
  | _, done _ | _, failed _ => True
  | 0, ask _ _ => False
  | n + 1, ask _ next => ∀ value, (next value).AsksUpTo n

/-- What is done asks for no die. -/
@[simp] theorem asksUpTo_done (n : Nat) (value : α) : (done value).AsksUpTo n := by
  cases n <;> trivial

/-- What has failed asks for no die. -/
@[simp] theorem asksUpTo_failed (n : Nat) (fault : Fault) :
    (failed fault : Rolling α).AsksUpTo n := by
  cases n <;> trivial

/-- A bound may be raised. -/
theorem AsksUpTo.mono {m n : Nat} {rolling : Rolling α} (h : rolling.AsksUpTo m) (hle : m ≤ n) :
    rolling.AsksUpTo n := by
  induction rolling generalizing m n with
  | done value => exact asksUpTo_done n value
  | failed fault => exact asksUpTo_failed n fault
  | ask sides next ih =>
      cases m with
      | zero => exact h.elim
      | succ m =>
          obtain ⟨n, rfl⟩ := Nat.exists_eq_add_of_lt hle
          exact fun value => ih value (h value) (Nat.le_add_right m n)

/-- Two steps ask for the dice of the first and those of the second. -/
theorem AsksUpTo.bind {m n : Nat} {rolling : Rolling α} {f : α → Rolling β}
    (h : rolling.AsksUpTo m) (hf : ∀ value, (f value).AsksUpTo n) :
    (rolling >>= f).AsksUpTo (m + n) := by
  induction rolling generalizing m with
  | done value => exact (hf value).mono (Nat.le_add_left n m)
  | failed fault => exact asksUpTo_failed _ fault
  | ask sides next ih =>
      cases m with
      | zero => exact h.elim
      | succ m =>
          rw [Nat.succ_add]
          exact fun value => ih value (h value)

/-- No path of a computation has more draws than the computation asks for. -/
theorem AsksUpTo.length_le {n : Nat} {rolling : Rolling α} (h : rolling.AsksUpTo n)
    {draws : List Draw} {result : α} (hyields : rolling.Yields draws result) :
    draws.length ≤ n := by
  induction hyields generalizing n with
  | done => exact Nat.zero_le n
  | ask _ ih =>
      cases n with
      | zero => exact h.elim
      | succ n => exact Nat.succ_le_succ (ih (h _))

end Rolling

/-! ### Dice, qualifiers and groups -/

/-- Rolling a die asks for one. -/
theorem rollDie_asksUpTo : (rollDie sides).AsksUpTo 1 := by
  intro value
  dsimp only
  split
  · exact Rolling.asksUpTo_done 0 _
  · exact Rolling.asksUpTo_failed 0 _

/-- Rolling dice one after the other asks for so many. -/
theorem rollOnto_asksUpTo (n : Nat) (rolled : List Die) : (rollOnto sides n rolled).AsksUpTo n := by
  induction n generalizing rolled with
  | zero => exact Rolling.asksUpTo_done 0 _
  | succ n ih =>
      have hdie : (rollDie sides).AsksUpTo 1 := rollDie_asksUpTo
      exact (hdie.bind fun die => ih (die :: rolled)).mono (Nat.le_of_eq (Nat.add_comm 1 n))

/-- Adding dice asks for at most as many as the budget allows. -/
theorem Pool.cascade_asksUpTo (triggers : Die → Bool) (settle : Die → Die) (budget : Nat)
    (dice : List Die) : (cascade triggers settle sides budget dice).AsksUpTo budget := by
  induction budget generalizing dice with
  | zero => exact Rolling.asksUpTo_done 0 _
  | succ budget ih =>
      rw [cascade]
      split
      · exact Rolling.asksUpTo_done _ _
      · next die more _ =>
          have hmore (added : Die) := (ih (more ++ [added])).bind fun rest =>
            Rolling.asksUpTo_done 0 (dice.takeWhile (!triggers ·) ++ settle die :: rest)
          exact (rollDie_asksUpTo.bind hmore).mono (Nat.le_of_eq (Nat.add_comm 1 budget))

/-- A qualifier asks for at most a hundred dice, and for none if it selects. -/
theorem Qualifier.apply_asksUpTo (qualifier : Qualifier) (pool : Pool) :
    (qualifier.apply pool).AsksUpTo (if qualifier.phase = .generate then extraDice else 0) := by
  cases qualifier with
  | select => exact Rolling.asksUpTo_done _ _
  | reroll threshold =>
      exact (Pool.cascade_asksUpTo _ Die.drop extraDice pool.dice).bind fun dice =>
        Rolling.asksUpTo_done 0 _
  | explode threshold =>
      exact (Pool.cascade_asksUpTo _ id extraDice pool.dice).bind fun dice =>
        Rolling.asksUpTo_done 0 _

/-- Qualifiers ask for at most a hundred dice for each generator among them. -/
theorem Pool.qualify_asksUpTo (qualifiers : List Qualifier) (pool : Pool) :
    (pool.qualify qualifiers).AsksUpTo (extraDice * qualifiers.countP (·.phase = .generate)) := by
  induction qualifiers generalizing pool with
  | nil => exact Rolling.asksUpTo_done _ _
  | cons qualifier more ih =>
      refine ((qualifier.apply_asksUpTo pool).bind fun after => ih after).mono (Nat.le_of_eq ?_)
      rw [List.countP_cons, Nat.mul_add, Nat.add_comm]
      split <;> simp_all

/-- A group asks for its dice, and for at most a hundred more for each generator. -/
theorem DiceGroup.roll_asksUpTo (group : DiceGroup) :
    group.roll.AsksUpTo
      (group.count.toNat + extraDice * group.qualifiers.countP (·.phase = .generate)) := by
  have hnone : (selections group.qualifiers).countP (·.phase = .generate) = 0 := by
    rw [List.countP_eq_zero]
    intro qualifier hqualifier
    simp [(mem_selections.mp hqualifier).2]
  have hall : (generators group.qualifiers).countP (·.phase = .generate) =
      group.qualifiers.countP (·.phase = .generate) := by
    rw [generators, List.countP_filter]
    simp
  have hroll (count : Nat) : (Pool.roll count group.sides).AsksUpTo count :=
    (rollOnto_asksUpTo count []).bind fun dice => Rolling.asksUpTo_done 0 _
  have hqualify := ((hroll group.count.toNat).bind fun pool =>
    (Pool.qualify_asksUpTo (generators group.qualifiers) pool).bind fun after =>
      Pool.qualify_asksUpTo (selections group.qualifiers) after)
  rw [hnone, hall] at hqualify
  exact hqualify

/-! ### Sources -/

/-- The next `n` dice of some sides that a source is asked for show faces. -/
def DieSource.Supplies [DieSource σ] (sides : UInt32) : Nat → σ → Prop
  | 0, _ => True
  | n + 1, source =>
      ∃ value between, draw sides source = (.ok value, between) ∧ 1 ≤ value ∧ value ≤ sides ∧
        Supplies sides n between

/-- A stepper that does not stand on zero and is not at the end of its numbers shows a face. -/
theorem Stepper.draw_eq_ok {stepper : Stepper} (hsides : 1 ≤ sides) (hpos : 0 < stepper.current)
    (hreach : stepper.current + stepper.stride < UInt32.size) :
    ∃ value : UInt32, DieSource.draw sides stepper =
        (.ok value, { stepper with current := stepper.current + stepper.stride }) ∧
      value.toNat = (stepper.current - 1) % sides.toNat + 1 ∧ 1 ≤ value ∧ value ≤ sides := by
  have hone : 1 ≤ sides.toNat := UInt32.le_iff_toNat_le.mp hsides
  have hne : sides ≠ 0 := by
    rintro rfl
    exact absurd hone (by decide)
  have hface : (stepper.current - 1) % sides.toNat + 1 ≤ sides.toNat := Nat.mod_lt _ hone
  have hvalue : (UInt32.ofNat ((stepper.current - 1) % sides.toNat + 1)).toNat =
      (stepper.current - 1) % sides.toNat + 1 :=
    UInt32.toNat_ofNat_of_lt' (Nat.lt_of_le_of_lt hface sides.toNat_lt)
  refine ⟨.ofNat ((stepper.current - 1) % sides.toNat + 1), ?_, hvalue, ?_, ?_⟩
  · simp only [DieSource.draw]
    rw [if_neg (Nat.ne_of_gt hpos), if_neg hne, if_pos hreach]
  · rw [UInt32.le_iff_toNat_le, hvalue]
    exact Nat.le_add_left _ _
  · rw [UInt32.le_iff_toNat_le, hvalue]
    exact hface

/-- A stepper shows faces for as many dice as its numbers reach, if it does not stand on zero. -/
theorem Stepper.supplies {stepper : Stepper} {n : Nat} (hsides : 1 ≤ sides)
    (hpos : 0 < stepper.current) (hreach : stepper.current + n * stepper.stride < UInt32.size) :
    DieSource.Supplies sides n stepper := by
  induction n generalizing stepper with
  | zero => trivial
  | succ n ih =>
      rw [Nat.succ_mul] at hreach
      obtain ⟨value, hdraw, -, hone, hle⟩ := draw_eq_ok hsides hpos (by omega)
      refine ⟨value, _, hdraw, hone, hle, ih (Nat.add_pos_left hpos _) ?_⟩
      dsimp only
      omega

variable [DieSource σ] {source : σ}

/-- A computation that only rolls dice sees faces on a source that supplies as many as it asks
for. -/
theorem Rolling.OnlyRolls.seesFaces {post : α → Prop} {rolling : Rolling α}
    (h : rolling.OnlyRolls sides post) {n : Nat} (hasks : rolling.AsksUpTo n)
    (hsource : DieSource.Supplies sides n source) : rolling.SeesFaces source := by
  induction h generalizing n source with
  | done => trivial
  | @die next _ ih =>
      cases n with
      | zero => exact hasks.elim
      | succ n =>
          obtain ⟨value, between, hdraw, hpos, hle, hbetween⟩ := hsource
          have hnext := hasks value
          refine seesFaces_ask_iff.mpr ⟨value, between, hdraw, ⟨hpos, hle⟩, ?_⟩
          simp only [if_pos (And.intro hpos hle)] at hnext ⊢
          exact ih ⟨sides, value, true⟩ hnext hbetween

/-- A computation that only rolls dice comes to its end if it sees faces. -/
theorem Rolling.OnlyRolls.run_eq_ok_of_seesFaces {post : α → Prop} {rolling : Rolling α}
    (h : rolling.OnlyRolls sides post) (hfaces : rolling.SeesFaces source) :
    ∃ value left, rolling.run source = (.ok value, left) := by
  induction h generalizing source with
  | @done value => exact ⟨value, source, rfl⟩
  | @die next _ ih =>
      obtain ⟨value, between, hdraw, hface, hnext⟩ := seesFaces_ask_iff.mp hfaces
      simp only [if_pos hface] at hnext
      obtain ⟨result, left, hrun⟩ := ih ⟨sides, value, true⟩ hnext
      refine ⟨result, left, ?_⟩
      rw [← hrun, rollDie, ask_bind, run, hdraw]
      simp only [if_pos hface, done_bind]

/-- A computation that only rolls dice comes to its end on a source that supplies as many as it
asks for. -/
theorem Rolling.OnlyRolls.run_eq_ok {post : α → Prop} {rolling : Rolling α}
    (h : rolling.OnlyRolls sides post) {n : Nat} (hasks : rolling.AsksUpTo n)
    (hsource : DieSource.Supplies sides n source) :
    ∃ value left, rolling.run source = (.ok value, left) :=
  h.run_eq_ok_of_seesFaces (h.seesFaces hasks hsource)

end Dicebox
