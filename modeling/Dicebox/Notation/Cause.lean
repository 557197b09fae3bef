import Dicebox.Term
import Dicebox.Token

/-!
# Causes for rejecting notation

Notation is rejected for one of the causes below. A cause carries what its message needs:
numbers as they were written, however large, and the bounds that they miss.

## Main definitions

* `Cause` — why notation is rejected.
* `Cause.message` — how a cause is reported.
-/

namespace Dicebox

/-- Why notation is rejected. -/
inductive Cause where
  /-- There is no token at all. -/
  | nothingToRoll
  /-- A character starts no token. -/
  | unknownCharacter
  /-- A token stands where only others may. -/
  | unexpected (found : TokenKind) (expected : List TokenKind)
  /-- The notation ends where a token is missing. -/
  | unexpectedEnd (expected : List TokenKind)
  /-- A `d` is not followed by a number of sides. -/
  | missingSides
  /-- A number is beyond what a machine word holds. -/
  | numberTooLarge
  /-- A group has no dice. -/
  | noDice
  /-- Dice have fewer than two sides. -/
  | tooFewSides (sides : Nat)
  /-- A group has more dice than the limit. -/
  | tooManyDice (count : Nat) (max : UInt32)
  /-- Dice have more sides than the limit. -/
  | tooManySides (sides : Nat) (max : UInt32)
  /-- A selection takes no die. -/
  | emptySelection (qualifier : Qualifier)
  /-- A selection, given by its letters, takes every die that is still kept, or more. -/
  | selectsAllDice (letters : String) (count : Nat) (kept : Nat)
  /-- A reroll would reroll nothing, or every face. -/
  | rerollThreshold (threshold : Nat) (sides : UInt32)
  /-- An explosion would add a die for the lowest face, or for none. -/
  | explodeThreshold (threshold : Nat) (sides : UInt32)
  deriving DecidableEq, Repr

/-- How the tokens that may stand somewhere are listed: in the given order, with an `or`
before the last one, and with commas when there are more than two. -/
def listExpected (expected : List TokenKind) : String :=
  match expected with
  | [a, b] => a.label ++ " or " ++ b.label
  | _ => serial expected
where
  /-- The list with a comma behind every token but the last. -/
  serial : List TokenKind → String
    | [] => ""
    | [a] => a.label
    | [a, b] => a.label ++ ", or " ++ b.label
    | a :: more => a.label ++ ", " ++ serial more

/-- How a cause is reported. -/
def Cause.message : Cause → String
  | nothingToRoll => "no dice or numbers to roll"
  | unknownCharacter => "unknown character"
  | unexpected found expected =>
    "unexpected " ++ found.label ++ ", expected " ++ listExpected expected
  | unexpectedEnd expected => "unexpected end of input, expected " ++ listExpected expected
  | missingSides => "dice must say how many sides they have"
  | numberTooLarge => "number is too large"
  | noDice => "at least one die must be rolled"
  | tooFewSides sides => "dice need at least 2 sides, found " ++ sides.repr
  | tooManyDice count max =>
    "cannot roll " ++ count.repr ++ " dice at once; the limit is " ++ max.toNat.repr
  | tooManySides sides max =>
    "dice cannot have " ++ sides.repr ++ " sides; the limit is " ++ max.toNat.repr
  | emptySelection qualifier => "'" ++ qualifier.text ++ "' must select at least one die"
  | selectsAllDice letters count kept =>
    "'" ++ letters ++ count.repr ++ "' must select fewer than the " ++ kept.repr ++
      " dice still kept"
  | rerollThreshold threshold sides =>
    "cannot reroll " ++ threshold.repr ++ " or lower on a d" ++ sides.toNat.repr ++
      "; the threshold must be between 1 and " ++ (sides - 1).toNat.repr
  | explodeThreshold threshold sides =>
    "cannot explode on " ++ threshold.repr ++ " or higher on a d" ++ sides.toNat.repr ++
      "; the threshold must be between 2 and " ++ sides.toNat.repr

end Dicebox
