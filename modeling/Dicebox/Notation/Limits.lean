/-!
# Limits

Whoever accepts notation from others bounds how much a single group of dice may ask for.

## Main definitions

* `Limits` — the most dice and the most sides of a group.
-/

namespace Dicebox

/-- The most dice that one group may roll, and the most sides that they may have. -/
structure Limits where
  maxDice : UInt32 := 1000
  maxSides : UInt32 := 10000
  deriving DecidableEq, Repr

end Dicebox
