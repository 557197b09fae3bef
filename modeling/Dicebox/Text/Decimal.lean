/-!
# Decimal numbers

Numbers are written in decimal. Writing uses the digits of the core library; this module
adds the written form with a sign, and the reading of numbers that must fit 64 bits.

## Main definitions

* `signed` — an integer with its sign, `+` included.
* `word64?` — the number that a text writes, if it is a 64-bit one.
-/

namespace Dicebox.Text

/-- An integer in decimal with its sign in front; zero counts as positive. -/
def signed (n : Int) : String :=
  if n < 0 then "-" ++ n.natAbs.repr else "+" ++ n.natAbs.repr

/-- The number below 2⁶⁴ that a text writes: an optional `+`, then decimal digits, at least
one. Leading zeros are allowed. -/
def word64? (cs : List Char) : Option Nat :=
  let digits := match cs with
    | '+' :: more => more
    | _ => cs
  if digits ≠ [] ∧ digits.all Char.isDigit ∧ Nat.ofDigitChars 10 digits 0 < UInt64.size then
    some (Nat.ofDigitChars 10 digits 0)
  else none

end Dicebox.Text
