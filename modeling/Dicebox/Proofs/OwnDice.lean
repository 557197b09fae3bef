import Dicebox.Qualify

/-!
# A group rolls its own dice

A group does one thing with a source, over and over: it rolls a die of its own sides. What it does
with the dice is its own affair. So what holds of rolling one die, and of steps one after the other,
holds of rolling the group.

`Rolling.OnlyRolls` says that a computation is put together in this way. The functions that roll are
taken apart here once and for all; what is said of their failures, of the faces that their dice show
and of when they are done all starts from here.

## Main definitions

* `Rolling.OnlyRolls` — the computations that do nothing but roll dice of some sides.

## Main results

* `Rolling.OnlyRolls.bind` — two steps one after the other.
* `DiceGroup.roll_onlyRolls` — a group only rolls dice of its own sides.
-/

namespace Dicebox

variable {α β : Type} {sides : UInt32}

/-- A computation does nothing but roll dice of some sides, one after the other, and the values that
it comes to are as wanted. -/
inductive Rolling.OnlyRolls (sides : UInt32) (post : α → Prop) : Rolling α → Prop
  | done {value : α} : post value → OnlyRolls sides post (.done value)
  | die {next : Die → Rolling α} :
      (∀ die, OnlyRolls sides post (next die)) → OnlyRolls sides post (rollDie sides >>= next)

/-- Two steps do nothing but roll dice if each of them does, the second for all values that the
first comes to. -/
theorem Rolling.OnlyRolls.bind {post : α → Prop} {goal : β → Prop} {rolling : Rolling α}
    {f : α → Rolling β} (h : rolling.OnlyRolls sides post)
    (hf : ∀ value, post value → (f value).OnlyRolls sides goal) :
    (rolling >>= f).OnlyRolls sides goal := by
  induction h with
  | @done value hvalue => exact hf value hvalue
  | die _ ih =>
      rw [Rolling.bind_assoc]
      exact .die ih

/-- Dice are rolled one after the other. -/
theorem rollOnto_onlyRolls (n : Nat) (rolled : List Die) :
    (rollOnto sides n rolled).OnlyRolls sides fun _ => True := by
  induction n generalizing rolled with
  | zero => exact .done trivial
  | succ n ih => exact .die fun die => ih (die :: rolled)

namespace Pool

/-- The dice of a group are rolled. -/
theorem roll_onlyRolls (count : Nat) :
    (roll count sides).OnlyRolls sides fun pool => pool.sides = sides :=
  (rollOnto_onlyRolls count []).bind fun _ _ => .done rfl

/-- Dice are added by rolling them, whichever dice trigger. -/
theorem cascade_onlyRolls (triggers : Die → Bool) (settle : Die → Die) (budget : Nat)
    (dice : List Die) :
    (cascade triggers settle sides budget dice).OnlyRolls sides fun _ => True := by
  induction budget generalizing dice with
  | zero => exact .done trivial
  | succ budget ih =>
      rw [cascade]
      split
      · exact .done trivial
      · next die more _ =>
          exact .die fun added => (ih (more ++ [added])).bind fun _ _ => .done trivial

end Pool

/-- A qualifier rolls dice of the sides of its pool, which stay as they are. -/
theorem Qualifier.apply_onlyRolls (qualifier : Qualifier) {pool : Pool} (h : pool.sides = sides) :
    (qualifier.apply pool).OnlyRolls sides fun after => after.sides = sides := by
  subst h
  cases qualifier with
  | select which n => cases which <;> exact .done rfl
  | reroll threshold =>
      exact (Pool.cascade_onlyRolls _ Die.drop extraDice pool.dice).bind fun _ _ => .done rfl
  | explode threshold =>
      exact (Pool.cascade_onlyRolls _ id extraDice pool.dice).bind fun _ _ => .done rfl

/-- Qualifiers roll dice of the sides of their pool, which stay as they are. -/
theorem Pool.qualify_onlyRolls (qualifiers : List Qualifier) {pool : Pool}
    (h : pool.sides = sides) :
    (pool.qualify qualifiers).OnlyRolls sides fun after => after.sides = sides := by
  induction qualifiers generalizing pool with
  | nil => exact .done h
  | cons qualifier more ih =>
      exact (qualifier.apply_onlyRolls h).bind fun _ hafter => ih hafter

/-- A group only rolls dice of its own sides. -/
theorem DiceGroup.roll_onlyRolls (group : DiceGroup) :
    group.roll.OnlyRolls group.sides fun pool => pool.sides = group.sides :=
  (Pool.roll_onlyRolls group.count.toNat).bind fun _ hrolled =>
    (Pool.qualify_onlyRolls _ hrolled).bind fun _ hgenerated => Pool.qualify_onlyRolls _ hgenerated

end Dicebox
