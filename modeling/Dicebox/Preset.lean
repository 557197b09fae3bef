/-!
# Presets

Rolls that are common enough to be offered by name.

## Main definitions

* `Preset`, `commonRolls` — the presets.
-/

namespace Dicebox

/-- A roll that is offered under a label. -/
structure Preset where
  label : String
  written : String
  deriving DecidableEq, Repr

/-- The rolls that are offered. -/
def commonRolls : List Preset :=
  [⟨"d20", "1d20"⟩, ⟨"d20 + 5", "1d20+5"⟩, ⟨"d6", "1d6"⟩, ⟨"2d6", "2d6"⟩,
   ⟨"d100", "1d100"⟩, ⟨"4d6 drop lowest", "4d6dl1"⟩]

end Dicebox
