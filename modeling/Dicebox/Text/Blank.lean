/-!
# Blank space and lines

Lines of input are cut at line feeds and stripped of the blank space around them. Blank is
the Unicode property White_Space, of which the carriage return that may stand before a line
feed is a part, so stripping removes that one as well.

## Main definitions

* `isBlank` — the property White_Space.
* `strip` — a text without the blank space at its two ends.
* `lines` — a text cut at its line feeds.
-/

namespace Dicebox.Text

/-- The Unicode property White_Space. -/
def isBlank (c : Char) : Bool :=
  let n := c.toNat
  (0x9 ≤ n && n ≤ 0xD) || n == 0x20 || n == 0x85 || n == 0xA0 || n == 0x1680 ||
    (0x2000 ≤ n && n ≤ 0x200A) || n == 0x2028 || n == 0x2029 || n == 0x202F ||
    n == 0x205F || n == 0x3000

/-- A text without the blank space at its two ends. -/
def strip (cs : List Char) : List Char :=
  ((cs.dropWhile isBlank).reverse.dropWhile isBlank).reverse

/-- The lines of a text. Each line feed ends a line; what follows the last one is a line too
unless it is empty. -/
def lines : List Char → List (List Char)
  | [] => []
  | c :: cs =>
    if c = '\n' then [] :: lines cs
    else
      match lines cs with
      | [] => [[c]]
      | first :: more => (c :: first) :: more

end Dicebox.Text
