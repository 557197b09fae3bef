import Mathlib.Data.Nat.Digits.Defs
import Dicebox.Notation.Parse

/-!
# The grammar of dice notation

This module says which symbols write which terms, without a machine: a derivation cuts the
symbols into the parts of an expression, and every part carries the conditions that it has
to meet. The productions are

* expression: a term, or a term, `+` or `-`, and an expression;
* term: a number, or a count, `d`, the sides, and qualifiers;
* count: a number, or nothing, which counts one die;
* sides: a number, or `%`, which is one hundred;
* qualifier: letters and a number, or `r` or `!`, with a number or without.

A number is the number that its digits write, at any length. The terms hold it in a machine
word of one width or another, and a production always asks that the word *is* the number, so
nothing is ever cut off.

How many dice are kept, which bounds a selection, is counted from the count of the group
through the qualifiers written before the selection.

## Main definitions

* `decimal` — the number that digits write.
* `symbols` — the tokens of a text, as the grammar sees them.
* `WritesQualifiers`, `WritesTerm`, `Writes` — the productions.

## Main results

* `symbols_eq_map` — the grammar sees the tokens as the reader sees them.
* `WritesTerm.kind_notMem` — a term holds no operator and no unknown character.
* `Writes.kind_ne_unknown` — an expression holds no unknown character.
-/

namespace Dicebox

/-! ### Symbols of a text -/

/-- The number that digits write, the last one standing for units. -/
def decimal (digits : List Char) : Nat :=
  Nat.ofDigits 10 (digits.reverse.map fun c => c.toNat - '0'.toNat)

/-- The tokens of a text, as the grammar sees them: their kinds, and the numbers that the
integers among them write. -/
def symbols (text : List Char) : List Symbol :=
  (tokenize text).map fun token =>
    ⟨token.kind, if token.kind = .integer then decimal token.text else 0⟩

/-- Reading digits from the left, ten times what was read before and the next digit, gives
the number that they write. -/
theorem decimal_eq_ofDigitChars (digits : List Char) :
    decimal digits = Nat.ofDigitChars 10 digits 0 := by
  induction digits with
  | nil => rfl
  | cons c digits ih =>
      have hcons : decimal (c :: digits) =
          decimal digits + 10 ^ digits.length * (c.toNat - '0'.toNat) := by
        rw [decimal, List.reverse_cons, List.map_append, Nat.ofDigits_append,
          List.length_map, List.length_reverse]
        exact congrArg (_ + 10 ^ digits.length * ·) Nat.ofDigits_singleton
      rw [hcons, ih, Nat.ofDigitChars_cons, Nat.mul_zero, Nat.zero_add, Nat.add_comm]
      exact Nat.ofDigitChars_eq_ofDigitChars_zero.symm

/-- The grammar sees the tokens of a text exactly as the reader sees them. -/
theorem symbols_eq_map (text : List Char) :
    symbols text = (tokenize text).map Token.symbol := by
  refine List.map_congr_left fun token _ => ?_
  rw [Token.symbol, Token.value, decimal_eq_ofDigitChars]
  cases token.kind <;> rfl

/-! ### Productions -/

/-- The symbols in front of the `d` of a group write how many dice it has. One die may go
without a number, and then it is not measured against the limit. -/
inductive WritesCount (limits : Limits) : List Symbol → UInt32 → Prop
  | omitted : WritesCount limits [] 1
  | number {n : Nat} {count : UInt32} :
      count.toNat = n → 1 ≤ n → n ≤ limits.maxDice.toNat →
      WritesCount limits [⟨.integer, n⟩] count

/-- A symbol behind the `d` of a group writes the sides of its dice. -/
inductive WritesSides (limits : Limits) : Symbol → UInt32 → Prop
  | number {n : Nat} {sides : UInt32} :
      sides.toNat = n → 2 ≤ n → n ≤ limits.maxSides.toNat →
      WritesSides limits ⟨.integer, n⟩ sides
  | percent {value : Nat} :
      100 ≤ limits.maxSides.toNat → WritesSides limits ⟨.percent, value⟩ 100

/-- The letters of a selection. Behind the sides of a group `d` drops the lowest dice, and
`k` keeps the highest. -/
inductive WritesSelection : TokenKind → Selection → Prop
  | keep : WritesSelection .keep .keepHighest
  | keepHighest : WritesSelection .keepHighest .keepHighest
  | keepLowest : WritesSelection .keepLowest .keepLowest
  | dice : WritesSelection .dice .dropLowest
  | dropLowest : WritesSelection .dropLowest .dropLowest
  | dropHighest : WritesSelection .dropHighest .dropHighest

/-- Symbols write a qualifier for dice of these sides, `kept` of which are still kept. -/
inductive WritesQualifier (sides kept : Nat) : List Symbol → Qualifier → Prop
  | select {kind : TokenKind} {value n : Nat} {which : Selection} {number : UInt32} :
      WritesSelection kind which → number.toNat = n → 1 ≤ n → n < kept →
      WritesQualifier sides kept [⟨kind, value⟩, ⟨.integer, n⟩] (.select which number)
  | reroll {value n : Nat} {threshold : UInt32} :
      threshold.toNat = n → 1 ≤ n → n < sides →
      WritesQualifier sides kept [⟨.reroll, value⟩, ⟨.integer, n⟩] (.reroll threshold)
  | rerollOnes {value : Nat} :
      1 < sides → WritesQualifier sides kept [⟨.reroll, value⟩] (.reroll 1)
  | explode {value n : Nat} {threshold : UInt32} :
      threshold.toNat = n → 2 ≤ n → n ≤ sides →
      WritesQualifier sides kept [⟨.explode, value⟩, ⟨.integer, n⟩]
        (.explode (some threshold))
  | explodeHighest {value : Nat} :
      WritesQualifier sides kept [⟨.explode, value⟩] (.explode none)

/-- Symbols write the qualifiers of a group, `kept` of whose dice are kept before them. -/
inductive WritesQualifiers (sides : Nat) : Nat → List Symbol → List Qualifier → Prop
  | nil {kept : Nat} : WritesQualifiers sides kept [] []
  | cons {kept : Nat} {front more : List Symbol} {qualifier : Qualifier}
      {qualifiers : List Qualifier} :
      WritesQualifier sides kept front qualifier →
      WritesQualifiers sides (qualifier.keptAfter kept) more qualifiers →
      WritesQualifiers sides kept (front ++ more) (qualifier :: qualifiers)

/-- Symbols write a value term. -/
inductive WritesTerm (limits : Limits) : List Symbol → Term → Prop
  | constant {n : Nat} {value : Amount} :
      value.toInt = n → n ≤ 2 ^ 63 - 1 → WritesTerm limits [⟨.integer, n⟩] (.constant value)
  | dice {front behind : List Symbol} {value : Nat} {sides : Symbol} {group : DiceGroup} :
      WritesCount limits front group.count → WritesSides limits sides group.sides →
      WritesQualifiers group.sides.toNat group.count.toNat behind group.qualifiers →
      WritesTerm limits (front ++ ⟨.dice, value⟩ :: sides :: behind) (.dice group)

/-- The sign of an operator. -/
inductive WritesOperator : TokenKind → Operator → Prop
  | plus : WritesOperator .plus .plus
  | minus : WritesOperator .minus .minus

/-- Symbols write the terms of an expression. -/
inductive Writes (limits : Limits) : List Symbol → List Term → Prop
  | term {front : List Symbol} {term : Term} :
      WritesTerm limits front term → Writes limits front [term]
  | chain {front more : List Symbol} {term : Term} {kind : TokenKind} {value : Nat}
      {op : Operator} {terms : List Term} :
      WritesTerm limits front term → WritesOperator kind op → Writes limits more terms →
      Writes limits (front ++ ⟨kind, value⟩ :: more) (term :: .operator op :: terms)

/-! ### Tokens outside of terms -/

/-- The kinds of token that no term holds: operators stand between terms, and an unknown
character nowhere. -/
def outsideTerms : List TokenKind := [.plus, .minus, .unknown]

/-- A count holds only tokens of terms. -/
theorem WritesCount.kind_notMem {limits : Limits} {front : List Symbol} {count : UInt32}
    (h : WritesCount limits front count) : ∀ symbol ∈ front, symbol.kind ∉ outsideTerms := by
  cases h with
  | omitted => exact nofun
  | number => simp [outsideTerms]

/-- Sides are a token of terms. -/
theorem WritesSides.kind_notMem {limits : Limits} {symbol : Symbol} {sides : UInt32}
    (h : WritesSides limits symbol sides) : symbol.kind ∉ outsideTerms := by
  cases h with
  | number | percent => simp [outsideTerms]

/-- A qualifier holds only tokens of terms. -/
theorem WritesQualifier.kind_notMem {sides kept : Nat} {front : List Symbol}
    {qualifier : Qualifier} (h : WritesQualifier sides kept front qualifier) :
    ∀ symbol ∈ front, symbol.kind ∉ outsideTerms := by
  cases h with
  | select hwhich => cases hwhich <;> simp [outsideTerms]
  | reroll | rerollOnes | explode | explodeHighest => simp [outsideTerms]

/-- Qualifiers hold only tokens of terms. -/
theorem WritesQualifiers.kind_notMem {sides kept : Nat} {front : List Symbol}
    {qualifiers : List Qualifier} (h : WritesQualifiers sides kept front qualifiers) :
    ∀ symbol ∈ front, symbol.kind ∉ outsideTerms := by
  induction h with
  | nil => exact nofun
  | cons hqualifier _ ih => exact List.forall_mem_append.mpr ⟨hqualifier.kind_notMem, ih⟩

/-- A term holds only tokens of terms. -/
theorem WritesTerm.kind_notMem {limits : Limits} {front : List Symbol} {term : Term}
    (h : WritesTerm limits front term) : ∀ symbol ∈ front, symbol.kind ∉ outsideTerms := by
  cases h with
  | constant => simp [outsideTerms]
  | dice hcount hsides hqualifiers =>
      refine List.forall_mem_append.mpr ⟨hcount.kind_notMem, ?_⟩
      refine List.forall_mem_cons.mpr ⟨by simp [outsideTerms], ?_⟩
      exact List.forall_mem_cons.mpr ⟨hsides.kind_notMem, hqualifiers.kind_notMem⟩

/-- An operator is no token of terms. -/
theorem WritesOperator.kind_mem {kind : TokenKind} {op : Operator}
    (h : WritesOperator kind op) : kind ∈ outsideTerms := by
  cases h with
  | plus | minus => decide

/-- No symbol of an expression is an unknown character. -/
theorem Writes.kind_ne_unknown {limits : Limits} {all : List Symbol} {terms : List Term}
    (h : Writes limits all terms) : ∀ symbol ∈ all, symbol.kind ≠ .unknown := by
  have hterm {front : List Symbol} {term : Term} (h : WritesTerm limits front term) :
      ∀ symbol ∈ front, symbol.kind ≠ .unknown := by
    intro symbol hsymbol hunknown
    exact h.kind_notMem symbol hsymbol (by simp [hunknown, outsideTerms])
  induction h with
  | term hwrites => exact hterm hwrites
  | chain hwrites hop _ ih =>
      refine List.forall_mem_append.mpr ⟨hterm hwrites, ?_⟩
      refine List.forall_mem_cons.mpr ⟨?_, ih⟩
      cases hop <;> exact nofun

end Dicebox
