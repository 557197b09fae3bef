import Dicebox.Term.Flaw

/-!
# Faults of a roll

Rolling an expression can fail for four reasons: the expression has a flaw, the source of
the dice gives no value, it answers with a value that the die does not have, or the sum of the
dice of a group is too large.

## Main definitions

* `ArithmeticError`, `Shortage`, `Fault` — what can go wrong.
* `ArithmeticError.message`, `Shortage.message`, `Fault.message` — how it is reported.
-/

namespace Dicebox

/-- What goes wrong in arithmetic with numbers of a fixed width, where it is checked. -/
inductive ArithmeticError where
  | addOverflow
  | subtractOverflow
  | zeroDivisor
  deriving DecidableEq, Repr

/-- How a failure of arithmetic is reported. -/
def ArithmeticError.message : ArithmeticError → String
  | addOverflow => "attempt to add with overflow"
  | subtractOverflow => "attempt to subtract with overflow"
  | zeroDivisor => "attempt to calculate the remainder with a divisor of zero"

/-- Why a source gives no value. -/
inductive Shortage where
  /-- A list of values is used up when a die of these sides is rolled. -/
  | outOfValues (sides : UInt32)
  /-- A list of random words is used up. -/
  | outOfWords
  /-- A die without sides has no value. -/
  | noSides
  /-- The arithmetic of the source fails. -/
  | arithmetic (cause : ArithmeticError)
  deriving DecidableEq, Repr

/-- How a shortage is reported. -/
def Shortage.message : Shortage → String
  | outOfValues sides => "replay source ran out of values for a d" ++ sides.toNat.repr
  | outOfWords => "scripted rng ran out of words"
  | noSides => "cannot sample empty range"
  | arithmetic cause => cause.message

/-- Why an expression is not rolled to its end. -/
inductive Fault where
  | flawed (flaw : Flaw)
  | shortage (shortage : Shortage)
  /-- The source answers with a value that the die does not have. -/
  | outOfRange (value sides : UInt32)
  /-- The values of a group that count add up to more than the largest amount. -/
  | overflow
  deriving DecidableEq, Repr

/-- How a fault is reported. -/
def Fault.message : Fault → String
  | flawed cause => cause.message
  | shortage cause => cause.message
  | outOfRange value sides =>
    "random source returned " ++ value.toNat.repr ++ " for a d" ++ sides.toNat.repr
  | overflow => ArithmeticError.addOverflow.message

end Dicebox
