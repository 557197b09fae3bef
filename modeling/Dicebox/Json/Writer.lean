import Dicebox.Json

/-!
# Writing JSON

The text of a JSON value is compact: no blank space anywhere, members in their order, and in
strings no more escapes than the format asks for.

## Main definitions

* `Json.escaped` — a character inside a string.
* `Json.chars`, `Json.text` — the text of a value.
-/

namespace Dicebox

namespace Json

/-- How one character is written inside a string. -/
def escaped (c : Char) : List Char :=
  if c = '\"' ∨ c = '\\' then ['\\', c]
  else if c = '\x08' then ['\\', 'b']
  else if c = '\x0c' then ['\\', 'f']
  else if c = '\n' then ['\\', 'n']
  else if c = '\r' then ['\\', 'r']
  else if c = '\t' then ['\\', 't']
  else if c.toNat < 0x20 then
    ['\\', 'u', '0', '0', Nat.digitChar (c.toNat / 16), Nat.digitChar (c.toNat % 16)]
  else [c]

/-- A string with its quotes. -/
def stringChars (s : String) : List Char :=
  '\"' :: s.toList.flatMap escaped ++ ['\"']

mutual

/-- The characters of a value. -/
def chars : Json → List Char
  | null => ['n', 'u', 'l', 'l']
  | bool true => ['t', 'r', 'u', 'e']
  | bool false => ['f', 'a', 'l', 's', 'e']
  | int n => n.repr.toList
  | real written => written.toList
  | str s => stringChars s
  | arr items => '[' :: itemChars items
  | obj members => '\x7b' :: memberChars members

/-- The characters of the items of an array, up to its closing bracket. -/
def itemChars : List Json → List Char
  | [] => [']']
  | [item] => item.chars ++ [']']
  | item :: more => item.chars ++ ',' :: itemChars more

/-- The characters of the members of an object, up to its closing brace. -/
def memberChars : List (String × Json) → List Char
  | [] => ['\x7d']
  | [(key, value)] => stringChars key ++ ':' :: value.chars ++ ['\x7d']
  | (key, value) :: more => stringChars key ++ ':' :: value.chars ++ ',' :: memberChars more

end

/-- The text of a value. -/
def text (value : Json) : String :=
  String.ofList value.chars

end Json

end Dicebox
