import Dicebox.Json.Access
import Dicebox.Json.Reader
import Dicebox.Json.Writer
import Dicebox.Notation.Limits
import Dicebox.Preset
import Dicebox.Record

/-!
# Stored forms

The JSON forms of what is stored or sent elsewhere: dice, outcomes, roll records, limits and
presets. A table of modifiers is an object with its keys in ascending order.

## Main definitions

* `toJson` and `ofJson?` of `Die`, `Modifiers`, `Outcome`, `RollRecord` and `Limits`.
* `Preset.toJson` — presets are only sent.
-/

namespace Dicebox

/-- A number as JSON. -/
def jsonOfWord (n : UInt32) : Json :=
  .int n.toNat

/-- The JSON form of a die. -/
def Die.toJson (die : Die) : Json :=
  .obj [("sides", jsonOfWord die.sides), ("value", jsonOfWord die.value),
    ("kept", .bool die.kept)]

/-- Reads a die. -/
def Die.ofJson? (json : Json) : Option Die := do
  match ← json.fields? ["sides", "value", "kept"] with
  | [sides, value, kept] => return ⟨← sides.word32?, ← value.word32?, ← kept.bool?⟩
  | _ => none

/-- The JSON form of a table of modifiers. -/
def Modifiers.toJson (modifiers : Modifiers) : Json :=
  .obj (modifiers.entries.map fun entry => (entry.1, .int entry.2.toInt))

/-- Reads a table of modifiers, which must be an object. -/
def Modifiers.ofJson? : Json → Option Modifiers
  | .obj members =>
    (members.mapM fun (member : String × Json) =>
      member.2.amount?.map (member.1, ·)).map Modifiers.ofEntries
  | _ => none

/-- The JSON form of an outcome. -/
def Outcome.toJson (outcome : Outcome) : Json :=
  .obj [("notation", .str outcome.written), ("rolls", .arr (outcome.rolls.map jsonOfWord)),
    ("modifiers", outcome.modifiers.toJson), ("total", .int outcome.total.toInt),
    ("output", .str outcome.output), ("dice", .arr (outcome.dice.map Die.toJson))]

/-- Reads an outcome. -/
def Outcome.ofJson? (json : Json) : Option Outcome := do
  match ← json.fields? ["notation", "rolls", "modifiers", "total", "output", "dice"] with
  | [written, rolls, modifiers, total, output, dice] =>
    return {
      written := ← written.string?
      rolls := ← rolls.list? Json.word32?
      modifiers := ← Modifiers.ofJson? modifiers
      total := ← total.amount?
      output := ← output.string?
      dice := ← dice.list? Die.ofJson? }
  | _ => none

/-- The JSON form of a record. -/
def RollRecord.toJson (record : RollRecord) : Json :=
  .obj [("dice_notation", .str record.written),
    ("individual_rolls", .arr (record.rolls.map jsonOfWord)),
    ("modifiers", record.modifiers.toJson), ("total", .int record.total.toInt)]

/-- Reads a record. -/
def RollRecord.ofJson? (json : Json) : Option RollRecord := do
  match ← json.fields? ["dice_notation", "individual_rolls", "modifiers", "total"] with
  | [written, rolls, modifiers, total] =>
    return {
      written := ← written.string?
      rolls := ← rolls.list? Json.word32?
      modifiers := ← Modifiers.ofJson? modifiers
      total := ← total.amount? }
  | _ => none

/-- The JSON form of limits. -/
def Limits.toJson (limits : Limits) : Json :=
  .obj [("max_dice", jsonOfWord limits.maxDice), ("max_sides", jsonOfWord limits.maxSides)]

/-- Reads limits; one that is not given has its default value. -/
def Limits.ofJson? (json : Json) : Option Limits := do
  let defaults : Limits := {}
  match ← json.fieldsOr? [("max_dice", jsonOfWord defaults.maxDice),
    ("max_sides", jsonOfWord defaults.maxSides)] with
  | [maxDice, maxSides] => return ⟨← maxDice.word32?, ← maxSides.word32?⟩
  | _ => none

/-- The JSON form of a preset. -/
def Preset.toJson (preset : Preset) : Json :=
  .obj [("label", .str preset.label), ("notation", .str preset.written)]

end Dicebox
