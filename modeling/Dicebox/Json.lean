/-!
# JSON values

Rolls are stored as JSON. A number is kept as an integer when it is written as one; any
other number is kept as it is written, because nothing here computes with it. The members of
an object keep their order.

## Main definitions

* `Json` — the values.
* `Json.member?` — the value of a member of an object.
-/

namespace Dicebox

/-- A JSON value. -/
inductive Json where
  | null
  | bool (b : Bool)
  | int (n : Int)
  /-- A number with a fraction or an exponent, or the number `-0`, as it is written. -/
  | real (written : String)
  | str (s : String)
  | arr (items : List Json)
  | obj (members : List (String × Json))

namespace Json

/-- The value of a member of an object. Of members with the same key the last one counts. -/
def member? (members : List (String × Json)) (key : String) : Option Json :=
  members.reverse.lookup key

end Json

end Dicebox
