import Dicebox.Notation.Reader
import Dicebox.Text.Quoted

/-!
# Parsing notation

`parse` reads an expression from a text. What the reader objects to is turned into a
`Rejection`, which says where in the text the objection lies: how many characters come
before, which bytes it concerns, and what is written there.

## Main definitions

* `Rejection` — a cause with its place in the text.
* `Rejection.message` — how a rejection is reported.
* `parse` — the expression that a text writes.
-/

namespace Dicebox

/-- A cause for rejecting notation, with its place: the number of characters before it, the
bytes that it takes, and the text of these. -/
structure Rejection where
  cause : Cause
  position : Nat
  byteStart : Nat
  byteStop : Nat
  slice : String
  deriving DecidableEq, Repr

namespace Rejection

/-- Rejects a stretch of a text. -/
def ofExtent (text : List Char) (extent : Text.Extent) (cause : Cause) : Rejection :=
  { cause
    position := extent.start
    byteStart := extent.byteStart text
    byteStop := extent.byteStop text
    slice := String.ofList (extent.slice text) }

/-- How a rejection is reported. -/
def message (rejection : Rejection) : String :=
  "invalid dice notation at position " ++ rejection.position.repr ++
    " (" ++ Text.quoted rejection.slice ++ "): " ++ rejection.cause.message

end Rejection

/-- The stretch of a text that a place among its tokens covers. -/
def Place.extent (text : List Char) (tokens : List Token) : Place → Text.Extent
  | .atEnd => .atEnd text
  | .tokens first last =>
    match tokens[first]?, tokens[last]? with
    | some a, some b => ⟨a.extent.start, b.extent.stop⟩
    | _, _ => .atEnd text

/-- The terms that a text writes. -/
def parseTerms (limits : Limits) (text : List Char) : Except Rejection (List Term) :=
  let tokens := tokenize text
  match Reader.start.read limits 0 (tokens.map Token.symbol) with
  | .ok terms => .ok terms
  | .error objection =>
    .error (.ofExtent text (objection.place.extent text tokens) objection.cause)

/-- The expression that a text writes, within limits. -/
def parse (limits : Limits) (text : String) : Except Rejection Expression :=
  (parseTerms limits text.toList).map (⟨text, ·⟩)

end Dicebox
