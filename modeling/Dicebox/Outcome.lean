import Dicebox.Modifiers
import Dicebox.Qualify
import Dicebox.Source

/-!
# Outcomes

The outcome of a roll holds what was rolled and what it comes to: every die, the values that
count, the constants, the total, and a line of text that shows them.

An outcome is made of *contributions*, the values of an expression after their dice are
rolled, each with the operator before it.

## Main definitions

* `Contribution` — a value after its dice are rolled.
* `Outcome`, `Outcome.ofContributions` — the outcome that contributions make.
* `Outcome.message` — the outcome announced in a line of chat.
* `Outcome.replay` — a source that rolls the same dice again.
-/

namespace Dicebox

/-- A value of an expression after its dice are rolled, with the operator before it. -/
inductive Contribution where
  | constant (op : Operator) (value : Amount)
  | dice (op : Operator) (pool : Pool)
  deriving DecidableEq, Repr

namespace Contribution

/-- The dice of a contribution. -/
def rolled : Contribution → List Die
  | constant _ _ => []
  | dice _ pool => pool.dice

/-- The values of a contribution that count. -/
def keptValues : Contribution → List UInt32
  | constant _ _ => []
  | dice _ pool => pool.keptValues

/-- The constant of a contribution, with its sign. -/
def constant? : Contribution → Option Amount
  | constant op value => some (op.signed value)
  | dice _ _ => none

/-- The total after a contribution. -/
def addTo (total : Amount) : Contribution → Amount
  | constant op value => op.apply total value
  | dice op pool => op.apply total pool.keptSum

end Contribution

/-- The outcome of a roll. -/
structure Outcome where
  /-- The notation, as it was written. -/
  written : String
  /-- The values that count, in the order in which they were rolled. -/
  rolls : List UInt32
  /-- The constants, with their signs. -/
  modifiers : Modifiers
  /-- What the roll comes to. -/
  total : Amount
  /-- The line that shows the roll. -/
  output : String
  /-- Every die, kept or not, in the order in which they were rolled. -/
  dice : List Die
  deriving DecidableEq

namespace Outcome

/-- The line that shows a roll: the notation, the values that count, the sum of the constants
with its sign, and the total. -/
def render (written : String) (rolls : List UInt32) (constants total : Amount) : String :=
  written ++ ": [" ++ ", ".intercalate (rolls.map fun value => value.toNat.repr) ++
    "] (" ++ constants.signedText ++ ") = " ++ total.text

/-- The outcome that contributions make. -/
def ofContributions (written : String) (contributions : List Contribution) : Outcome :=
  let rolls := contributions.flatMap Contribution.keptValues
  let modifiers := Modifiers.ofConstants (contributions.filterMap Contribution.constant?)
  let total := contributions.foldl Contribution.addTo 0
  { written, rolls, modifiers, total
    output := render written rolls modifiers.total total
    dice := contributions.flatMap Contribution.rolled }

/-- The dice that do not count. -/
def dropped (outcome : Outcome) : List Die :=
  outcome.dice.filter (!·.kept)

/-- A source that rolls the same dice again. -/
def replay (outcome : Outcome) : Replay :=
  ⟨outcome.dice.map Die.value⟩

/-- The line of chat that announces a roll. -/
def message (outcome : Outcome) : String :=
  "Rolled " ++ outcome.written ++ ": " ++ outcome.output

end Outcome

end Dicebox
