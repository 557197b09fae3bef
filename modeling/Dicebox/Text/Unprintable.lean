import Dicebox.Text.Extending
import Dicebox.Text.Unassigned

/-!
# Characters without a form of their own

A character is *unprintable* when showing it raw would not show the reader which character
it is. There are three reasons for that, and each has a table of code-point ranges:

* `invisibleRanges` — the character shows nothing: controls, format characters, every space
  but the plain one, line and paragraph separators, private-use characters, and the fillers
  that hold the place of a missing Hangul letter;
* `extendingRanges` — it is a mark that attaches to the character before it;
* `unassignedRanges` — there is no such character.

## Main definitions

* `isUnprintable` — whether a character is in one of the tables.
-/

namespace Dicebox.Text

/-- The characters that show nothing: the general categories Cc, Cf, Co, Zl and Zp, the
category Zs without U+0020, and the four Hangul fillers U+115F, U+1160, U+3164 and U+FFA0,
the only letters with the property Default_Ignorable_Code_Point. The table follows
Unicode 17: disjoint ranges in ascending order, ends included. -/
def invisibleRanges : List (Nat × Nat) :=
  [(0x0, 0x1F), (0x7F, 0xA0), (0xAD, 0xAD), (0x600, 0x605), (0x61C, 0x61C),
   (0x6DD, 0x6DD), (0x70F, 0x70F), (0x890, 0x891), (0x8E2, 0x8E2), (0x115F, 0x1160),
   (0x1680, 0x1680), (0x180E, 0x180E), (0x2000, 0x200F), (0x2028, 0x202F),
   (0x205F, 0x2064), (0x2066, 0x206F), (0x3000, 0x3000), (0x3164, 0x3164),
   (0xE000, 0xF8FF), (0xFEFF, 0xFEFF), (0xFFA0, 0xFFA0), (0xFFF9, 0xFFFB),
   (0x110BD, 0x110BD), (0x110CD, 0x110CD), (0x13430, 0x1343F), (0x1BCA0, 0x1BCA3),
   (0x1D173, 0x1D17A), (0xE0001, 0xE0001), (0xE0020, 0xE007F), (0xF0000, 0xFFFFD),
   (0x100000, 0x10FFFD)]

/-- The ranges ascend, and no two of them could be one. -/
example : (invisibleRanges.zip invisibleRanges.tail).all fun (r, s) => r.2 + 1 < s.1 := by
  decide +kernel

/-- The code points in the table. -/
example : invisibleRanges.foldl (fun total r => total + (r.2 + 1 - r.1)) 0 = 137725 := by
  decide +kernel

/-- Whether a code point lies in one of the ranges. -/
def inRanges (ranges : List (Nat × Nat)) (n : Nat) : Bool :=
  ranges.any fun range => range.1 ≤ n && n ≤ range.2

/-- Whether a character has no form of its own. The visible part of ASCII, which is nearly
every character asked about, is settled without the tables. -/
def isUnprintable (c : Char) : Bool :=
  let n := c.toNat
  if 0x20 ≤ n ∧ n < 0x7F then false
  else
    inRanges invisibleRanges n || inRanges extendingRanges n || inRanges unassignedRanges n

end Dicebox.Text
