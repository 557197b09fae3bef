import Dicebox.Outcome

/-!
# Roll records

What a host stores of a roll besides its line of chat is a record: the notation, the values
that count, the constants and the total.

## Main definitions

* `RollRecord`, `Outcome.record` — the record of an outcome.
-/

namespace Dicebox

/-- A roll as it is stored next to its line of chat. -/
structure RollRecord where
  written : String
  rolls : List UInt32
  modifiers : Modifiers
  total : Amount
  deriving DecidableEq

/-- The record of an outcome. -/
def Outcome.record (outcome : Outcome) : RollRecord :=
  { written := outcome.written
    rolls := outcome.rolls
    modifiers := outcome.modifiers
    total := outcome.total }

end Dicebox
