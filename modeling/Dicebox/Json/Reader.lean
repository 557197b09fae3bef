import Dicebox.Json

/-!
# Reading JSON

The reader takes a value off the front of a text and returns it with the rest. Its recursion
is bounded by a number of steps that the length of the text supplies: a value inside another
one is shorter by the bracket, comma or colon before it.

## Main definitions

* `Json.readString` — the rest of a string whose opening quote is read.
* `Json.readNumber` — a number.
* `Json.ofChars?`, `Json.ofText?` — the value that a whole text writes.
-/

namespace Dicebox

namespace Json

/-- Drops the blank space that may stand between the parts of a value. -/
def skipSpace (cs : List Char) : List Char :=
  cs.dropWhile fun c => c == ' ' || c == '\t' || c == '\n' || c == '\r'

/-! ### Strings -/

/-- The value of a hexadecimal digit. -/
def hexDigit? (c : Char) : Option Nat :=
  if '0' ≤ c ∧ c ≤ '9' then some (c.toNat - '0'.toNat)
  else if 'a' ≤ c ∧ c ≤ 'f' then some (c.toNat - 'a'.toNat + 10)
  else if 'A' ≤ c ∧ c ≤ 'F' then some (c.toNat - 'A'.toNat + 10)
  else none

/-- The value of four hexadecimal digits. -/
def hex4? (a b c d : Char) : Option Nat := do
  return (((← hexDigit? a) * 16 + (← hexDigit? b)) * 16 + (← hexDigit? c)) * 16 +
    (← hexDigit? d)

/-- The character with a code point, if there is one. -/
def charOfNat? (n : Nat) : Option Char :=
  if h : n.isValidChar then some (Char.ofNatAux n h) else none

/-- The character that two surrogates name together. -/
def surrogatePair? (high low : Nat) : Option Char :=
  if 0xD800 ≤ high ∧ high < 0xDC00 ∧ 0xDC00 ≤ low ∧ low < 0xE000 then
    charOfNat? (0x10000 + (high - 0xD800) * 0x400 + (low - 0xDC00))
  else none

/-- The character that a letter names behind a backslash. -/
def unescaped? : Char → Option Char
  | '\"' => some '\"'
  | '\\' => some '\\'
  | '/' => some '/'
  | 'b' => some '\x08'
  | 'f' => some '\x0c'
  | 'n' => some '\n'
  | 'r' => some '\r'
  | 't' => some '\t'
  | _ => none

/-- Reads a string up to its closing quote; the opening one is read. -/
def readString : List Char → Option (List Char × List Char)
  | '\"' :: rest => some ([], rest)
  | '\\' :: 'u' :: a :: b :: c :: d :: rest => do
    let n ← hex4? a b c d
    match charOfNat? n with
    | some char =>
      let (more, rest) ← readString rest
      return (char :: more, rest)
    | none =>
      match rest with
      | '\\' :: 'u' :: a :: b :: c :: d :: rest =>
        let char ← surrogatePair? n (← hex4? a b c d)
        let (more, rest) ← readString rest
        return (char :: more, rest)
      | _ => none
  | '\\' :: letter :: rest => do
    let char ← unescaped? letter
    let (more, rest) ← readString rest
    return (char :: more, rest)
  | c :: rest =>
    if c.toNat < 0x20 then none
    else do
      let (more, rest) ← readString rest
      return (c :: more, rest)
  | [] => none

/-! ### Numbers -/

/-- The digits at the front of a text, at least one, and the rest. -/
def readDigits (cs : List Char) : Option (List Char × List Char) :=
  match cs.takeWhile Char.isDigit with
  | [] => none
  | digits => some (digits, cs.dropWhile Char.isDigit)

/-- The digits of a whole number, which has no leading zero, and the rest. -/
def readWhole (cs : List Char) : Option (List Char × List Char) := do
  let (digits, rest) ← readDigits cs
  if digits.length > 1 ∧ digits.head? = some '0' then none else some (digits, rest)

/-- The fraction at the front of a text, which may be empty. -/
def readFraction : List Char → Option (List Char × List Char)
  | '.' :: rest => do
    let (digits, rest) ← readDigits rest
    return ('.' :: digits, rest)
  | rest => some ([], rest)

/-- The exponent at the front of a text, which may be empty. -/
def readExponent : List Char → Option (List Char × List Char)
  | c :: rest =>
    if c = 'e' ∨ c = 'E' then
      match rest with
      | sign :: more =>
        if sign = '+' ∨ sign = '-' then do
          let (digits, rest) ← readDigits more
          return (c :: sign :: digits, rest)
        else do
          let (digits, rest) ← readDigits rest
          return (c :: digits, rest)
      | [] => none
    else some ([], c :: rest)
  | [] => some ([], [])

/-- The number that its parts make. -/
def numberOfParts (negative : Bool) (whole fraction exponent : List Char) : Json :=
  let size := Nat.ofDigitChars 10 whole 0
  let sign := if negative then ['-'] else []
  if fraction.isEmpty && exponent.isEmpty && !(negative && size == 0) then
    int (if negative then -size else size)
  else real (String.ofList (sign ++ whole ++ fraction ++ exponent))

/-- The rest of a number whose sign is read. -/
def readUnsigned (negative : Bool) (cs : List Char) : Option (Json × List Char) := do
  let (whole, rest) ← readWhole cs
  let (fraction, rest) ← readFraction rest
  let (exponent, rest) ← readExponent rest
  return (numberOfParts negative whole fraction exponent, rest)

/-- Reads a number. -/
def readNumber : List Char → Option (Json × List Char)
  | '-' :: rest => readUnsigned true rest
  | cs => readUnsigned false cs

/-! ### Values -/

mutual

/-- Reads a value in at most as many steps as the first argument says. -/
def readValue : Nat → List Char → Option (Json × List Char)
  | 0, _ => none
  | steps + 1, cs =>
    match skipSpace cs with
    | 'n' :: 'u' :: 'l' :: 'l' :: rest => some (null, rest)
    | 't' :: 'r' :: 'u' :: 'e' :: rest => some (bool true, rest)
    | 'f' :: 'a' :: 'l' :: 's' :: 'e' :: rest => some (bool false, rest)
    | '\"' :: rest => do
      let (s, rest) ← readString rest
      return (str (String.ofList s), rest)
    | '[' :: rest =>
      match skipSpace rest with
      | ']' :: rest => some (arr [], rest)
      | rest => do
        let (items, rest) ← readItems steps rest
        return (arr items, rest)
    | '\x7b' :: rest =>
      match skipSpace rest with
      | '\x7d' :: rest => some (obj [], rest)
      | rest => do
        let (members, rest) ← readMembers steps rest
        return (obj members, rest)
    | rest => readNumber rest

/-- Reads the items of an array, at least one, and its closing bracket. -/
def readItems : Nat → List Char → Option (List Json × List Char)
  | 0, _ => none
  | steps + 1, cs => do
    let (item, rest) ← readValue steps cs
    match skipSpace rest with
    | ',' :: rest =>
      let (more, rest) ← readItems steps rest
      return (item :: more, rest)
    | ']' :: rest => return ([item], rest)
    | _ => none

/-- Reads the members of an object, at least one, and its closing brace. -/
def readMembers : Nat → List Char → Option (List (String × Json) × List Char)
  | 0, _ => none
  | steps + 1, cs =>
    match skipSpace cs with
    | '\"' :: rest => do
      let (key, rest) ← readString rest
      match skipSpace rest with
      | ':' :: rest =>
        let (value, rest) ← readValue steps rest
        match skipSpace rest with
        | ',' :: rest =>
          let (more, rest) ← readMembers steps rest
          return ((String.ofList key, value) :: more, rest)
        | '\x7d' :: rest => return ([(String.ofList key, value)], rest)
        | _ => none
      | _ => none
    | _ => none

end

/-- The value that a text writes, if it writes one and nothing else. -/
def ofChars? (cs : List Char) : Option Json :=
  match readValue (2 * cs.length + 1) cs with
  | some (value, rest) => if (skipSpace rest).isEmpty then some value else none
  | none => none

/-- The value that a text writes, if it writes one and nothing else. -/
def ofText? (text : String) : Option Json :=
  ofChars? text.toList

end Json

end Dicebox
