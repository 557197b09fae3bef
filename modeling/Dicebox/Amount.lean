import Dicebox.Text.Decimal

/-!
# Amounts

Constants, kept sums and totals are *amounts*: signed 64-bit integers. Totals never wrap; a sum
beyond the largest or smallest amount stays there. The sum of the dice of a group is added up
without this precaution.

## Main definitions

* `Amount` — the signed 64-bit integers.
* `Amount.nearest` — the amount closest to an integer.
* `Amount.plus`, `Amount.minus`, `Amount.negated` — saturating arithmetic.
* `Amount.add?` — checked addition.

## Main results

* `Amount.toInt_nearest` — which integer the closest amount is.
-/

namespace Dicebox

/-- A signed 64-bit integer. -/
abbrev Amount := Int64

namespace Amount

/-- The amount closest to an integer: the integer itself when it is one. -/
def nearest (n : Int) : Amount :=
  Int64.ofInt (max Int64.minValue.toInt (min n Int64.maxValue.toInt))

/-- The amount closest to an integer is the integer, moved to the nearer end of the range of
amounts when it lies outside. -/
theorem toInt_nearest (n : Int) :
    (nearest n).toInt = max Int64.minValue.toInt (min n Int64.maxValue.toInt) := by
  have hmin := Int64.toInt_minValue
  have hmax := Int64.toInt_maxValue
  exact Int64.toInt_ofInt_of_le (by omega) (by omega)

/-- The amount closest to an amount is that amount. -/
@[simp] theorem nearest_toInt (a : Amount) : nearest a.toInt = a := by
  have hmin := a.minValue_le_toInt
  have hmax := a.toInt_le
  refine Int64.toInt_inj.mp ?_
  rw [toInt_nearest]
  omega

/-- The sum, or the amount closest to it. -/
def plus (a b : Amount) : Amount :=
  nearest (a.toInt + b.toInt)

/-- The difference, or the amount closest to it. -/
def minus (a b : Amount) : Amount :=
  nearest (a.toInt - b.toInt)

/-- The opposite, or the amount closest to it. -/
def negated (a : Amount) : Amount :=
  nearest (-a.toInt)

/-- The sum, if it is an amount. -/
def add? (a b : Amount) : Option Amount :=
  if (a + b).toInt = a.toInt + b.toInt then some (a + b) else none

/-- An amount in decimal. -/
def text (a : Amount) : String :=
  a.toInt.repr

/-- An amount in decimal with its sign. -/
def signedText (a : Amount) : String :=
  Text.signed a.toInt

end Amount

end Dicebox
