import Dicebox.Notation.Parse
import Dicebox.Outcome

/-!
# Rolling expressions

An expression is rolled from left to right: the groups roll their dice where they are
written, and what the values contribute makes the outcome. An expression with a flaw is not
rolled at all.

The kept dice of a group are added up as soon as they are rolled. Whether this addition is
checked is settled when the program is built. Where it is, a sum beyond the largest amount is a
fault, and where it is not, the sum wraps; nothing else depends on the build.

## Main definitions

* `Build` — the two ways in which the program is built.
* `DiceGroup.rollSummed` — rolls a group and adds up its kept dice.
* `contributions` — rolls the terms of an expression.
* `Expression.roll` — rolls an expression.
* `rollNotation` — reads notation and rolls it.
-/

namespace Dicebox

/-- How the program is built. -/
inductive Build where
  /-- Additions are checked, and fail when they overflow. -/
  | debug
  /-- Additions are not checked, and wrap when they overflow. -/
  | release
  deriving DecidableEq, Repr

/-- Rolls a group and adds up its kept dice. A sum that overflows is noticed when all dice of the
group are rolled, and before any die behind them is. -/
def DiceGroup.rollSummed (build : Build) (group : DiceGroup) : Rolling Pool := do
  let pool ← group.roll
  if build = .debug ∧ pool.keptSum? = none then .failed .overflow else .done pool

/-- Rolls terms; `op` is the operator before the first of them. -/
def contributions (build : Build) (op : Operator) : List Term → Rolling (List Contribution)
  | [] => .done []
  | .operator op :: more => contributions build op more
  | .constant value :: more => do
    return .constant op value :: (← contributions build op more)
  | .dice group :: more => do
    let pool ← group.rollSummed build
    return .dice op pool :: (← contributions build op more)

/-- Rolls an expression, unless it has a flaw. -/
def Expression.roll (expression : Expression) (build : Build := .debug) : Rolling Outcome :=
  match flaw? expression.terms with
  | some flaw => .failed (.flawed flaw)
  | none => do
    return .ofContributions expression.written (← contributions build .plus expression.terms)

/-- Reads notation within limits and rolls it. -/
def rollNotation (limits : Limits) (text : String) (build : Build := .debug) :
    Except Rejection (Rolling Outcome) :=
  (parse limits text).map (·.roll build)

end Dicebox
