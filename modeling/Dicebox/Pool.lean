import Dicebox.Rolling
import Dicebox.Amount

/-!
# Pools of dice

A pool is the dice rolled for one group, in the order in which they were rolled. A die that
does not count any more, because it was dropped or replaced, stays in the pool and is marked
as not kept.

Dice are dropped by rank. Ranks go by value, and dice of one value rank by their order in the
pool, the earliest first, whichever end of the ranking is dropped.

## Main definitions

* `Die`, `Pool` — dice, and the dice of a group.
* `Pool.keptValues`, `Pool.keptCount` — what counts.
* `Pool.keptSum`, `Pool.keptSum?` — what it adds up to, without and with a check.
* `rollDie`, `Pool.roll` — rolling one die, and all dice of a group.
* `Pool.dropLowest`, `Pool.dropHighest` — dropping by rank.
* `Pool.cascade` — going through a pool and adding a die for every die of a kind.
-/

namespace Dicebox

/-- A die that was rolled. -/
structure Die where
  sides : UInt32
  value : UInt32
  kept : Bool
  deriving DecidableEq, Repr

/-- The die, not counted any more. -/
def Die.drop (die : Die) : Die :=
  { die with kept := false }

/-- Rolls a die. The answer of the source must be one of its faces. -/
def rollDie (sides : UInt32) : Rolling Die :=
  .ask sides fun value =>
    if 1 ≤ value ∧ value ≤ sides then .done ⟨sides, value, true⟩
    else .failed (.outOfRange value sides)

/-- Rolls `n` more dice behind those of a list in which the newest die is the first. -/
def rollOnto (sides : UInt32) : Nat → List Die → Rolling (List Die)
  | 0, rolled => .done rolled.reverse
  | n + 1, rolled => do rollOnto sides n ((← rollDie sides) :: rolled)

/-- The dice rolled for a group, in their order. -/
structure Pool where
  sides : UInt32
  dice : List Die
  deriving DecidableEq, Repr

namespace Pool

/-- Rolls `count` dice. -/
def roll (count : Nat) (sides : UInt32) : Rolling Pool := do
  return ⟨sides, ← rollOnto sides count []⟩

/-- The values of the dice that are kept, in their order. -/
def keptValues (pool : Pool) : List UInt32 :=
  (pool.dice.filter Die.kept).map Die.value

/-- The number of dice that are kept. -/
def keptCount (pool : Pool) : Nat :=
  (pool.dice.filter Die.kept).length

/-- The sum of the values that are kept, where additions are not checked: they wrap. A sum
beyond the largest amount takes more than 2³¹ dice. -/
def keptSum (pool : Pool) : Amount :=
  pool.keptValues.foldl (fun sum value => sum + .ofNat value.toNat) 0

/-- The sum of the values that are kept, if no addition on the way to it overflows. -/
def keptSum? (pool : Pool) : Option Amount :=
  pool.keptValues.foldlM (fun sum value => sum.add? (.ofNat value.toNat)) 0

/-! ### Dropping by rank -/

/-- Whether a value with its place ranks before another one, from the lowest value up. -/
def lowestFirst (a b : UInt32 × Nat) : Bool :=
  decide (a.1 < b.1) || (a.1 == b.1 && decide (a.2 ≤ b.2))

/-- Whether a value with its place ranks before another one, from the highest value down. -/
def highestFirst (a b : UInt32 × Nat) : Bool :=
  decide (b.1 < a.1) || (a.1 == b.1 && decide (a.2 ≤ b.2))

/-- The values of the dice that are kept, each with its place in the pool. -/
def keptPlaces (dice : List Die) : List (UInt32 × Nat) :=
  (dice.zipIdx.filter fun entry => entry.1.kept).map fun entry => (entry.1.value, entry.2)

/-- Drops the dice at some places. -/
def dropAt (places : List Nat) (dice : List Die) : List Die :=
  dice.zipIdx.map fun (die, place) => if places.contains place then die.drop else die

/-- Drops the first `n` kept dice of a ranking, or all of them if they are fewer. -/
def dropFirst (ranking : UInt32 × Nat → UInt32 × Nat → Bool) (n : Nat) (pool : Pool) : Pool :=
  let ranked := (keptPlaces pool.dice).mergeSort ranking
  { pool with dice := dropAt ((ranked.take n).map Prod.snd) pool.dice }

/-- Drops the `n` lowest kept dice. -/
def dropLowest (n : Nat) (pool : Pool) : Pool :=
  pool.dropFirst lowestFirst n

/-- Drops the `n` highest kept dice. -/
def dropHighest (n : Nat) (pool : Pool) : Pool :=
  pool.dropFirst highestFirst n

/-! ### Adding dice -/

/-- Goes through dice from the first to the last and rolls another die, at the end, for each
one that triggers, until the end or until `budget` dice are added. A die that triggers is
changed by `settle`. The dice added are gone through as well. -/
def cascade (triggers : Die → Bool) (settle : Die → Die) (sides : UInt32) :
    Nat → List Die → Rolling (List Die)
  | 0, dice => .done dice
  | budget + 1, dice =>
    match dice.dropWhile (!triggers ·) with
    | [] => .done dice
    | die :: more => do
      let added ← rollDie sides
      let rest ← cascade triggers settle sides budget (more ++ [added])
      return dice.takeWhile (!triggers ·) ++ settle die :: rest

end Pool

end Dicebox
