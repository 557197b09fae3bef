import Dicebox.Term.Outline

/-!
# Flaws of an expression

Not every list of terms is an expression that can be rolled: values and operators have to
alternate, dice need two sides, and a qualifier has to make sense for its group. `flaw?`
looks for the first thing that is wrong, from left to right; an expression without a flaw
can be rolled.

Whether a selection makes sense depends on how many dice are still *kept* where it is
written. That number is tracked through the qualifiers of the group in written order, from
the count of the group on, as if no dice were added.

## Main definitions

* `Qualifier.Accepts` — when a qualifier makes sense.
* `Qualifier.keptAfter` — the dice kept after a qualifier.
* `Flaw`, `Flaw.message` — what can be wrong, and how it is reported.
* `flaw?` — the first flaw of a list of terms.
-/

namespace Dicebox

namespace Qualifier

/-- Whether a qualifier makes sense for dice of these sides of which `kept` are kept. A
selection takes at least one die and leaves at least one, a reroll spares at least the
highest face, and the lowest face never explodes. -/
def Accepts (sides : UInt32) (kept : Nat) : Qualifier → Prop
  | select _ n => 1 ≤ n.toNat ∧ n.toNat < kept
  | reroll threshold => 1 ≤ threshold ∧ threshold < sides
  | explode none => True
  | explode (some threshold) => 2 ≤ threshold ∧ threshold ≤ sides

instance (sides : UInt32) (kept : Nat) :
    (qualifier : Qualifier) → Decidable (qualifier.Accepts sides kept)
  | select _ n => inferInstanceAs (Decidable (1 ≤ n.toNat ∧ n.toNat < kept))
  | reroll threshold => inferInstanceAs (Decidable (1 ≤ threshold ∧ threshold < sides))
  | explode none => inferInstanceAs (Decidable True)
  | explode (some threshold) =>
    inferInstanceAs (Decidable (2 ≤ threshold ∧ threshold ≤ sides))

/-- The number of dice kept after a qualifier, of `kept` before it. -/
def keptAfter (kept : Nat) : Qualifier → Nat
  | select .keepHighest n | select .keepLowest n => n.toNat
  | select .dropHighest n | select .dropLowest n => kept - n.toNat
  | reroll _ | explode _ => kept

end Qualifier

/-- What can be wrong with a list of terms. -/
inductive Flaw where
  /-- A value stands where an operator belongs, or an operator where a value does. -/
  | misplaced (term : Term) (index : Nat)
  /-- The last term is an operator, or there is no term. -/
  | endsWithOperator
  /-- The dice of a group have fewer than two sides. -/
  | tooFewSides (group : DiceGroup)
  /-- A qualifier makes no sense where it is written. -/
  | inapplicable (qualifier : Qualifier) (group : DiceGroup) (kept : Nat)
  deriving DecidableEq, Repr

/-- How a flaw is reported, in the words of the report alone. That a term is or is not a value is
asserted as an equality, and what such an assertion puts around the words is left out: in front that
it failed, and behind them the two sides. -/
def Flaw.message : Flaw → String
  | misplaced term index =>
    "ill-formed dice expression: unexpected " ++ term.outline ++ " at term " ++ index.repr
  | endsWithOperator => "ill-formed dice expression: ends with an operator"
  | tooFewSides group => "ill-formed dice group: " ++ group.text
  | inapplicable qualifier group kept =>
    "ill-formed dice group: '" ++ qualifier.text ++ "' cannot apply to " ++ group.text ++
      " with " ++ kept.repr ++ " dice kept"

namespace DiceGroup

/-- The first of these qualifiers that makes no sense for the group, when `kept` of its dice
are kept before them. -/
def qualifierFlaw? (group : DiceGroup) (kept : Nat) : List Qualifier → Option Flaw
  | [] => none
  | qualifier :: more =>
    if qualifier.Accepts group.sides kept then
      group.qualifierFlaw? (qualifier.keptAfter kept) more
    else some (.inapplicable qualifier group kept)

/-- The first flaw of a group. -/
def flaw? (group : DiceGroup) : Option Flaw :=
  if 2 ≤ group.sides then group.qualifierFlaw? group.count.toNat group.qualifiers
  else some (.tooFewSides group)

end DiceGroup

/-- The first flaw that a term has in itself. -/
def Term.flaw? : Term → Option Flaw
  | dice group => group.flaw?
  | constant _ | operator _ => none

/-- The first flaw of a list of terms, the first of which has `index` terms before it. Values
belong at even places and operators at odd ones, so the places decide the end as well. -/
def flawFrom? (index : Nat) : List Term → Option Flaw
  | [] => if index % 2 = 1 then none else some .endsWithOperator
  | term :: more =>
    if term.isValue = decide (index % 2 = 0) then
      term.flaw?.or (flawFrom? (index + 1) more)
    else some (.misplaced term index)

/-- The first flaw of a list of terms, if there is one. -/
def flaw? (terms : List Term) : Option Flaw :=
  flawFrom? 0 terms

end Dicebox
