import Dicebox.Pool
import Dicebox.Term

/-!
# What qualifiers do

A qualifier acts on the pool of its group. Rerolls and explosions add dice; selections only
mark dice as not kept. The dice of a group are complete before any selection is made, however
the qualifiers are written: all qualifiers that add dice act first, and then the selections,
both in their written order.

## Main definitions

* `extraDice` — the most dice that one qualifier adds.
* `Qualifier.apply` — what a qualifier does to a pool.
* `DiceGroup.roll` — rolls a group, qualifiers included.
-/

namespace Dicebox

/-- The most dice that one reroll or explosion adds to a group. -/
def extraDice : Nat := 100

/-- The two stages in which the qualifiers of a group act. -/
inductive Phase where
  /-- Dice are added. -/
  | generate
  /-- Dice are selected. -/
  | filter
  deriving DecidableEq, Repr

/-- The name of a stage. -/
def Phase.name : Phase → String
  | generate => "Generate"
  | filter => "Filter"

/-- Selects dice: keeping `n` dice is dropping all others. -/
def Selection.apply (n : Nat) (pool : Pool) : Selection → Pool
  | keepHighest => pool.dropLowest (pool.keptCount - n)
  | keepLowest => pool.dropHighest (pool.keptCount - n)
  | dropHighest => pool.dropHighest n
  | dropLowest => pool.dropLowest n

namespace Qualifier

/-- The stage in which a qualifier acts. -/
def phase : Qualifier → Phase
  | select _ _ => .filter
  | reroll _ | explode _ => .generate

/-- What a qualifier does to a pool. -/
def apply (pool : Pool) : Qualifier → Rolling Pool
  | select which n => .done (which.apply n.toNat pool)
  | reroll threshold => do
    let triggers (die : Die) := die.kept && decide (die.value ≤ threshold)
    return { pool with
      dice := ← Pool.cascade triggers Die.drop pool.sides extraDice pool.dice }
  | explode threshold => do
    let triggers (die : Die) := die.kept && decide (threshold.getD pool.sides ≤ die.value)
    return { pool with
      dice := ← Pool.cascade triggers id pool.sides extraDice pool.dice }

end Qualifier

/-- Lets qualifiers act on a pool, one after the other. -/
def Pool.qualify (pool : Pool) : List Qualifier → Rolling Pool
  | [] => .done pool
  | qualifier :: more => do (← qualifier.apply pool).qualify more

/-- Rolls a group: its dice, then the dice that qualifiers add, then the selections. -/
def DiceGroup.roll (group : DiceGroup) : Rolling Pool := do
  let pool ← Pool.roll group.count.toNat group.sides
  let pool ← pool.qualify (group.qualifiers.filter (·.phase = .generate))
  pool.qualify (group.qualifiers.filter (·.phase = .filter))

end Dicebox
