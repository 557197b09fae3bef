import Dicebox.Text.Extent

/-!
# Tokens of dice notation

Dice notation is written in numbers, letters and a few signs. `lexemes` cuts a text into
*lexemes*, which together are the whole text: blank characters, and tokens. `tokenize` keeps
the tokens and remembers where each one stood.

The text is read from its right end. A character either joins the lexeme right behind it or
stands alone, and only three kinds of pair join: a digit and a number, `d` and a following
`h` or `l`, and `k` and a following `h` or `l`. An `h` or `l` begins no longer token of its
own, so this reading takes at every place the longest token that starts there.

## Main definitions

* `TokenKind` — the kinds of token.
* `Lexeme` — a piece of text: one blank character, or a token.
* `lexemes` — the pieces of a text, left to right.
* `Token` — a token with its place.
* `tokenize` — the tokens of a text, left to right.

## Main results

* `flatMap_text_lexemes` — the lexemes of a text are together the text.
-/

namespace Dicebox

/-- The kinds of token. A character that starts no token is a token of its own, of the kind
`unknown`. -/
inductive TokenKind where
  | integer
  | dice
  | percent
  | keep
  | keepHighest
  | keepLowest
  | dropHighest
  | dropLowest
  | reroll
  | explode
  | plus
  | minus
  | unknown
  deriving DecidableEq, Repr

namespace TokenKind

/-- How messages call a kind of token. -/
def label : TokenKind → String
  | integer => "<integer>"
  | dice => "'d'"
  | percent => "'%'"
  | keep => "'k'"
  | keepHighest => "'kh'"
  | keepLowest => "'kl'"
  | dropHighest => "'dh'"
  | dropLowest => "'dl'"
  | reroll => "'r'"
  | explode => "'!'"
  | plus => "'+'"
  | minus => "'-'"
  | unknown => "<error>"

/-- The kind of a token made of one character. Letters count in either case. -/
def ofChar (c : Char) : TokenKind :=
  if c.isDigit then integer
  else
    match c.toLower with
    | 'd' => dice
    | 'k' => keep
    | 'r' => reroll
    | '%' => percent
    | '!' => explode
    | '+' => plus
    | '-' => minus
    | _ => unknown

/-- The kind of a token made of two letters, for the pairs that make one. -/
def ofPair (first second : Char) : Option TokenKind :=
  match first.toLower, second.toLower with
  | 'k', 'h' => some keepHighest
  | 'k', 'l' => some keepLowest
  | 'd', 'h' => some dropHighest
  | 'd', 'l' => some dropLowest
  | _, _ => none

end TokenKind

/-! ### Lexemes -/

/-- The characters that may stand between tokens without a meaning. -/
def isSpacing (c : Char) : Bool :=
  c == ' ' || c == '\t' || c == '\r' || c == '\n'

/-- A piece of a text. -/
inductive Lexeme where
  /-- One character between tokens. -/
  | spacing (c : Char)
  /-- The characters of one token. -/
  | token (kind : TokenKind) (text : List Char)
  deriving DecidableEq, Repr

namespace Lexeme

/-- The characters of a lexeme. -/
def text : Lexeme → List Char
  | spacing c => [c]
  | token _ text => text

/-- The lexeme that a character makes alone. -/
def single (c : Char) : Lexeme :=
  if isSpacing c then spacing c else token (.ofChar c) [c]

/-- The lexeme that a character and the lexeme right behind it make together, if they make
one: a digit extends a number, and a letter takes the letter behind it into a pair. -/
def join? (c : Char) : Lexeme → Option Lexeme
  | token .integer digits => if c.isDigit then some (token .integer (c :: digits)) else none
  | token .unknown [letter] => (TokenKind.ofPair c letter).map (token · [c, letter])
  | _ => none

/-- Puts a character before lexemes. -/
def attach (c : Char) : List Lexeme → List Lexeme
  | [] => [single c]
  | next :: more =>
    match join? c next with
    | some joined => joined :: more
    | none => single c :: next :: more

end Lexeme

/-- The lexemes of a text, left to right. -/
def lexemes (text : List Char) : List Lexeme :=
  text.foldr Lexeme.attach []

namespace Lexeme

/-- A character alone has one character. -/
@[simp] theorem text_single (c : Char) : (single c).text = [c] := by
  rw [single.eq_def]
  split <;> rfl

/-- A character stands in front of the characters of the lexeme that it joins. -/
theorem text_of_join?_eq_some {c : Char} {next joined : Lexeme}
    (h : join? c next = some joined) : joined.text = c :: next.text := by
  rw [join?.eq_def] at h
  split at h
  · split at h
    · exact (Option.some.inj h) ▸ rfl
    · cases h
  · obtain ⟨kind, -, rfl⟩ := Option.map_eq_some_iff.mp h
    rfl
  · cases h

/-- A character in front of lexemes is in front of their characters. -/
theorem flatMap_text_attach (c : Char) (more : List Lexeme) :
    (attach c more).flatMap text = c :: more.flatMap text := by
  cases more with
  | nil => simp only [attach, List.flatMap_cons, List.flatMap_nil, text_single, List.append_nil]
  | cons next more =>
    simp only [attach]
    split
    · next joined hjoined =>
      simp only [List.flatMap_cons, text_of_join?_eq_some hjoined, List.cons_append]
    · simp only [List.flatMap_cons, text_single, List.singleton_append]

end Lexeme

/-- No character is lost: the lexemes of a text are together the text. -/
theorem flatMap_text_lexemes (text : List Char) :
    (lexemes text).flatMap Lexeme.text = text := by
  induction text with
  | nil => rfl
  | cons c text ih =>
    rw [lexemes, List.foldr_cons, Lexeme.flatMap_text_attach]
    exact congrArg (c :: ·) ih

/-! ### Tokens -/

/-- A token of a text: its kind, its characters, and how many characters come before it. -/
structure Token where
  kind : TokenKind
  text : List Char
  start : Nat
  deriving DecidableEq, Repr

namespace Token

/-- The stretch of the text that a token takes. -/
def extent (token : Token) : Text.Extent :=
  ⟨token.start, token.start + token.text.length⟩

/-- The number that a token writes, in decimal, whatever its size; only an integer token
writes one. -/
def value (token : Token) : Nat :=
  match token.kind with
  | .integer => Nat.ofDigitChars 10 token.text 0
  | _ => 0

/-- The tokens among lexemes, the first of which has `start` characters before it. -/
def ofLexemes (start : Nat) : List Lexeme → List Token
  | [] => []
  | .spacing _ :: more => ofLexemes (start + 1) more
  | .token kind text :: more => ⟨kind, text, start⟩ :: ofLexemes (start + text.length) more

end Token

/-- The tokens of a text, left to right. -/
def tokenize (text : List Char) : List Token :=
  Token.ofLexemes 0 (lexemes text)

end Dicebox
