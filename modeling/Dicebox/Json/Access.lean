import Dicebox.Amount
import Dicebox.Json

/-!
# Typed access to JSON values

These functions read a value of a known type from a JSON value, and fail on any other. A
number must be written as an integer and fit its type.

A record is stored as an object with a member for each field, or as an array with the fields
in order. An object may have further members; an array has exactly as many items as the
record has fields, or fewer where the last ones have default values.

## Main definitions

* `Json.string?`, `Json.bool?`, `Json.word32?`, `Json.amount?`, `Json.list?` — plain values.
* `Json.fields?` — the fields of a record.
* `Json.fieldsOr?` — the fields of a record in which every field has a default value.
-/

namespace Dicebox

namespace Json

/-- A string. -/
def string? : Json → Option String
  | str s => some s
  | _ => none

/-- A truth value. -/
def bool? : Json → Option Bool
  | bool b => some b
  | _ => none

/-- An integer. -/
def int? : Json → Option Int
  | int n => some n
  | _ => none

/-- An unsigned 32-bit integer. -/
def word32? : Json → Option UInt32
  | int n => if 0 ≤ n ∧ n < UInt32.size then some (.ofNat n.toNat) else none
  | _ => none

/-- A signed 64-bit integer. -/
def amount? : Json → Option Amount
  | int n =>
    if Int64.minValue.toInt ≤ n ∧ n ≤ Int64.maxValue.toInt then some (.ofInt n) else none
  | _ => none

/-- A list whose items are all of one type. -/
def list? {α : Type} (item? : Json → Option α) : Json → Option (List α)
  | arr items => items.mapM item?
  | _ => none

/-- The fields of a record, by their keys in order. -/
def fields? (keys : List String) : Json → Option (List Json)
  | obj members => keys.mapM (member? members)
  | arr items => if items.length = keys.length then some items else none
  | _ => none

/-- The fields of a record, by their keys in order, each with the value that it has when it
is not there. -/
def fieldsOr? (defaults : List (String × Json)) : Json → Option (List Json)
  | obj members => some (defaults.map fun field => (member? members field.1).getD field.2)
  | arr items =>
    if items.length ≤ defaults.length then
      some (items ++ (defaults.drop items.length).map Prod.snd)
    else none
  | _ => none

end Json

end Dicebox
