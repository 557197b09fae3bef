/-!
# Extents of a text

A message about a text points at a stretch of it. Inside the library such a stretch is an
`Extent`, counted in characters; outside it is reported in bytes of the UTF-8 form.

## Main definitions

* `Extent` — a stretch of a text, by the number of characters before its two ends.
* `Extent.slice` — the characters of the stretch.
* `Extent.byteStart`, `Extent.byteStop` — its ends in bytes.
-/

namespace Dicebox.Text

/-- The number of bytes that characters take in UTF-8. -/
def byteLength : List Char → Nat
  | [] => 0
  | c :: cs => c.utf8Size + byteLength cs

/-- A stretch of a text: how many characters come before it, and before what follows it. -/
structure Extent where
  start : Nat
  stop : Nat
  deriving DecidableEq, Repr

namespace Extent

/-- The characters of the stretch. -/
def slice (extent : Extent) (text : List Char) : List Char :=
  (text.take extent.stop).drop extent.start

/-- The byte at which the stretch begins. -/
def byteStart (extent : Extent) (text : List Char) : Nat :=
  byteLength (text.take extent.start)

/-- The byte before which the stretch ends. -/
def byteStop (extent : Extent) (text : List Char) : Nat :=
  byteLength (text.take extent.stop)

/-- The empty stretch behind a text. -/
def atEnd (text : List Char) : Extent :=
  ⟨text.length, text.length⟩

end Extent

end Dicebox.Text
