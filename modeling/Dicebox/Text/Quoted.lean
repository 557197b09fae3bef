import Dicebox.Text.Unprintable

/-!
# Quoted text

Messages show a piece of the user's text between double quotes, in a form that stays on one
line and leaves no doubt about its characters: a quote and a backslash get a backslash, the
common controls have a letter, and every other character without a form of its own is named
by its code point.

## Main definitions

* `escaped` — the written form of one character.
* `quoted` — the written form of a text, quotes included.
-/

namespace Dicebox.Text

/-- How one character is written between double quotes. -/
def escaped (c : Char) : List Char :=
  if c = '\"' ∨ c = '\\' then ['\\', c]
  else if c = '\x00' then ['\\', '0']
  else if c = '\t' then ['\\', 't']
  else if c = '\r' then ['\\', 'r']
  else if c = '\n' then ['\\', 'n']
  else if isUnprintable c then
    ['\\', 'u', '\x7b'] ++ Nat.toDigits 16 c.toNat ++ ['\x7d']
  else [c]

/-- A text between double quotes. -/
def quoted (s : String) : String :=
  String.ofList ('\"' :: s.toList.flatMap escaped ++ ['\"'])

end Dicebox.Text
