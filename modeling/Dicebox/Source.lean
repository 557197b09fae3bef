import Dicebox.Rolling

/-!
# Sources of dice

Three sources give dice without chance of their own: a list of values, a stepper that walks
round the faces of a die, and a list of random words.

A word is 32 bits, and the last source makes a fair die out of fair words. The product of a
word and the number of sides, cut at bit 32, gives the face above the cut. Faces would not
come up equally often if all words counted, so a word whose product lies too high in the part
below the cut is passed over.

## Main definitions

* `Replay`, `Stepper`, `WordScript` — the sources.
* `fairZone` — the highest part below the cut that still counts.
-/

namespace Dicebox

/-- Gives the values of a list, one after the other, for whatever dice are rolled. -/
structure Replay where
  values : List UInt32
  deriving DecidableEq, Repr

instance : DieSource Replay where
  draw sides
    | ⟨[]⟩ => (.error (.outOfValues sides), ⟨[]⟩)
    | ⟨value :: more⟩ => (.ok value, ⟨more⟩)

/-- Walks round the faces of a die: stands on a number, and moves on by `stride` after every
draw. Both are 32-bit numbers, and its arithmetic is checked: it cannot stand on zero, and it
gives no value when it would move on beyond the numbers. -/
structure Stepper where
  current : Nat
  stride : Nat
  deriving DecidableEq, Repr

instance : DieSource Stepper where
  draw sides stepper :=
    if stepper.current = 0 then (.error (.arithmetic .subtractOverflow), stepper)
    else if sides = 0 then (.error (.arithmetic .zeroDivisor), stepper)
    else if stepper.current + stepper.stride < UInt32.size then
      (.ok (.ofNat ((stepper.current - 1) % sides.toNat + 1)),
        { stepper with current := stepper.current + stepper.stride })
    else (.error (.arithmetic .addOverflow), stepper)

/-- Gives fair dice out of a list of random words. -/
structure WordScript where
  words : List UInt32
  deriving DecidableEq, Repr

/-- For a number of sides, the highest value of the low 32 bits of a product that counts: the
number of sides, shifted left until its top bit is bit 31, less one. -/
def fairZone (sides : UInt32) : Nat :=
  sides.toNat <<< (31 - sides.toNat.log2) - 1

namespace WordScript

/-- The face that a word gives on a die, if the word counts. -/
def face? (sides word : UInt32) : Option UInt32 :=
  let product := word.toNat * sides.toNat
  if product % UInt32.size ≤ fairZone sides then some (.ofNat (1 + product / UInt32.size))
  else none

/-- The face of the first word that counts, and the words behind it. -/
def drawFrom (sides : UInt32) : List UInt32 → Except Shortage UInt32 × List UInt32
  | [] => (.error .outOfWords, [])
  | word :: more =>
    match face? sides word with
    | some value => (.ok value, more)
    | none => drawFrom sides more

end WordScript

instance : DieSource WordScript where
  draw sides script :=
    if sides = 0 then (.error .noSides, script)
    else
      let (answer, words) := WordScript.drawFrom sides script.words
      (answer, ⟨words⟩)

end Dicebox
