import Dicebox.Notation.Cause
import Dicebox.Notation.Limits
import Dicebox.Term.Flaw

/-!
# Reading terms from symbols

Of a token the reader needs its kind and, for a number, its value; together these are a
`Symbol`. The reader is a machine that takes one symbol at a time. Its state is what it has
seen of the term that is being written, it hands out terms as soon as they are complete, and
it objects to the first symbol that cannot continue what was read. So an objection depends
on the symbols up to the one it was raised at, and on none behind it.

The notation is

* expression: a term, then any number of times `+` or `-` and a term;
* term: a number, or an optional number, `d`, the sides, and any qualifiers;
* sides: a number, or `%` for one hundred;
* qualifier: `k`, `kh`, `kl`, `d`, `dh` or `dl` and a number, or `r` or `!` and an optional
  number.

Behind the sides, `d` is read as `dl`; and `k` is always `kh`.

## Main definitions

* `Symbol` — what the reader sees of a token.
* `Objection` — a cause with the place that it concerns, by the numbers of the tokens.
* `Reader` — the states of the machine.
* `Reader.step`, `Reader.finish` — what a symbol and the end do to a state.
* `Reader.read` — the terms that symbols write.
-/

namespace Dicebox

/-- What the reader sees of a token: its kind, and the number that it writes. -/
structure Symbol where
  kind : TokenKind
  value : Nat
  deriving DecidableEq, Repr

/-- What the reader sees of a token. -/
def Token.symbol (token : Token) : Symbol :=
  ⟨token.kind, token.value⟩

/-- A place among tokens. -/
inductive Place where
  /-- Behind the last token. -/
  | atEnd
  /-- From one token to another, by the number of tokens before each. -/
  | tokens (first last : Nat)
  deriving DecidableEq, Repr

/-- A cause for rejecting notation, with the place that it concerns. -/
structure Objection where
  cause : Cause
  place : Place
  deriving DecidableEq, Repr

/-- An objection to one token. -/
def Objection.onToken (index : Nat) (cause : Cause) : Objection :=
  ⟨cause, .tokens index index⟩

/-- Objects to a symbol because only others may stand there. -/
def Symbol.unexpected (symbol : Symbol) (index : Nat) (expected : List TokenKind) :
    Objection :=
  if symbol.kind = .unknown then .onToken index .unknownCharacter
  else .onToken index (.unexpected symbol.kind expected)

/-- The tokens that begin a term. -/
def termStarts : List TokenKind := [.integer, .dice]

/-- The tokens that may stand behind a complete term. -/
def operators : List TokenKind := [.plus, .minus]

/-! ### Qualifiers -/

/-- A qualifier whose number has not been read. -/
inductive Marker where
  | select (which : Selection)
  | reroll
  | explode
  deriving DecidableEq, Repr

namespace Marker

/-- The qualifier that a token begins behind the sides of a group. -/
def ofKind : TokenKind → Option Marker
  | .keep | .keepHighest => some (.select .keepHighest)
  | .keepLowest => some (.select .keepLowest)
  | .dice | .dropLowest => some (.select .dropLowest)
  | .dropHighest => some (.select .dropHighest)
  | .reroll => some .reroll
  | .explode => some .explode
  | _ => none

/-- The qualifier that a marker makes with a number, on dice of these sides of which `kept`
are kept. -/
def withNumber (sides : UInt32) (kept n : Nat) : Marker → Except Cause Qualifier
  | select which =>
    if n = 0 then .error (.emptySelection (.select which 0))
    else if kept ≤ n then .error (.selectsAllDice which.letters n kept)
    else .ok (.select which (.ofNat n))
  | reroll =>
    if n < 1 ∨ sides.toNat ≤ n then .error (.rerollThreshold n sides)
    else .ok (.reroll (.ofNat n))
  | explode =>
    if n < 2 ∨ sides.toNat < n then .error (.explodeThreshold n sides)
    else .ok (.explode (some (.ofNat n)))

/-- The qualifier that a marker makes without a number, if it makes one. -/
def alone? : Marker → Option Qualifier
  | select _ => none
  | reroll => some (.reroll 1)
  | explode => some (.explode none)

end Marker

/-! ### The machine -/

/-- What has been read of the term that is being written. -/
inductive Reader where
  /-- Nothing, and no term before it. -/
  | start
  /-- Nothing, behind an operator. -/
  | term
  /-- The number `n`, which is token `index`. -/
  | number (n index : Nat)
  /-- The number of dice and the `d`. -/
  | sides (count : UInt32) (count_pos : 0 < count)
  /-- A group, of whose dice `kept` are kept. -/
  | group (group : DiceGroup) (kept : Nat)
  /-- The same, and the first token of a qualifier, which is token `index`. -/
  | marked (group : DiceGroup) (kept : Nat) (marker : Marker) (index : Nat)
  deriving Repr

namespace Reader

/-- What a symbol makes of a state: the terms that are complete now, and the next state. -/
abbrev Move := Except Objection (List Term × Reader)

/-- Reads the first symbol of a term. -/
def beginTerm (index : Nat) (symbol : Symbol) : Move :=
  match symbol.kind with
  | .dice => .ok ([], .sides 1 (by decide))
  | .integer =>
    if symbol.value < UInt64.size then .ok ([], .number symbol.value index)
    else .error (.onToken index .numberTooLarge)
  | _ => .error (symbol.unexpected index termStarts)

/-- Reads the symbol behind a complete term. -/
def afterTerm (term : Term) (index : Nat) (symbol : Symbol) : Move :=
  match symbol.kind with
  | .plus => .ok ([term, .operator .plus], .term)
  | .minus => .ok ([term, .operator .minus], .term)
  | _ => .error (symbol.unexpected index operators)

/-- The constant that a number makes. -/
def constant (n index : Nat) : Except Objection Term :=
  if n ≤ Int64.maxValue.toInt then .ok (.constant (.ofNat n))
  else .error (.onToken index .numberTooLarge)

/-- Reads the symbol behind a number: a `d` makes the number a count of dice. -/
def afterNumber (limits : Limits) (n numberIndex index : Nat) (symbol : Symbol) : Move :=
  match symbol.kind with
  | .dice =>
    if h : n = 0 then .error (.onToken numberIndex .noDice)
    else if h' : limits.maxDice.toNat < n then
      .error (.onToken numberIndex (.tooManyDice n limits.maxDice))
    else
      have hn : n < UInt32.size :=
        Nat.lt_of_le_of_lt (Nat.le_of_not_lt h') limits.maxDice.toNat_lt
      .ok ([], .sides (.ofNatLT n hn) (UInt32.lt_iff_toNat_lt.mpr (Nat.pos_of_ne_zero h)))
  | _ => do afterTerm (← constant n numberIndex) index symbol

/-- Reads the symbol behind the `d` of a group. -/
def readSides (limits : Limits) (count : UInt32) (count_pos : 0 < count) (index : Nat)
    (symbol : Symbol) : Move :=
  match symbol.kind with
  | .percent => withSides 100
  | .integer =>
    if UInt64.size ≤ symbol.value then .error (.onToken index .numberTooLarge)
    else if symbol.value < 2 then .error (.onToken index (.tooFewSides symbol.value))
    else withSides symbol.value
  | .unknown => .error (.onToken index .unknownCharacter)
  | _ => .error (.onToken index .missingSides)
where
  /-- Accepts a number of sides within the limit. -/
  withSides (sides : Nat) : Move :=
    if limits.maxSides.toNat < sides then
      .error (.onToken index (.tooManySides sides limits.maxSides))
    else .ok ([], .group ⟨count, .ofNat sides, [], count_pos⟩ count.toNat)

/-- Reads the symbol behind a group: another qualifier, or what follows a term. -/
def afterGroup (group : DiceGroup) (kept index : Nat) (symbol : Symbol) : Move :=
  match Marker.ofKind symbol.kind with
  | some marker => .ok ([], .marked group kept marker index)
  | none => afterTerm (.dice group) index symbol

/-- Reads the symbol behind the first token of a qualifier: its number, or, if the qualifier
needs none, what follows the group. -/
def afterMarker (group : DiceGroup) (kept : Nat) (marker : Marker) (markerIndex index : Nat)
    (symbol : Symbol) : Move :=
  if symbol.kind = .integer then
    if UInt64.size ≤ symbol.value then .error (.onToken index .numberTooLarge)
    else
      match marker.withNumber group.sides kept symbol.value with
      | .ok qualifier =>
        .ok ([], .group (group.qualify qualifier) (qualifier.keptAfter kept))
      | .error cause => .error ⟨cause, .tokens markerIndex index⟩
  else
    match marker.alone? with
    | some qualifier => afterGroup (group.qualify qualifier) kept index symbol
    | none => .error (symbol.unexpected index [.integer])

/-- What a symbol, which is token `index`, makes of a state. -/
def step (limits : Limits) (index : Nat) (symbol : Symbol) : Reader → Move
  | start | term => beginTerm index symbol
  | number n numberIndex => afterNumber limits n numberIndex index symbol
  | sides count count_pos => readSides limits count count_pos index symbol
  | group g kept => afterGroup g kept index symbol
  | marked g kept marker markerIndex => afterMarker g kept marker markerIndex index symbol

/-- The terms that are complete when the notation ends in a state. -/
def finish : Reader → Except Objection (List Term)
  | start => .error ⟨.nothingToRoll, .atEnd⟩
  | term => .error ⟨.unexpectedEnd termStarts, .atEnd⟩
  | number n index => do return [← constant n index]
  | sides _ _ => .error ⟨.missingSides, .atEnd⟩
  | group g _ => .ok [.dice g]
  | marked g _ marker _ =>
    match marker.alone? with
    | some qualifier => .ok [.dice (g.qualify qualifier)]
    | none => .error ⟨.unexpectedEnd [.integer], .atEnd⟩

/-- The terms that are written by what a state has seen and by the symbols behind it, the
first of which is token `index`. -/
def read (limits : Limits) (index : Nat) :
    Reader → List Symbol → Except Objection (List Term)
  | reader, [] => reader.finish
  | reader, symbol :: more => do
    let (complete, next) ← reader.step limits index symbol
    return complete ++ (← read limits (index + 1) next more)

end Reader

end Dicebox
