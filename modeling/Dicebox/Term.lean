import Dicebox.Amount

/-!
# Terms of a dice expression

An expression is a list of terms: values with operators between them. A value is a constant
or a group of equal dice, and a group may carry qualifiers, which reroll or add dice and
select those that count.

Every term has one written form, `text`, which is itself dice notation.

## Main definitions

* `Operator`, `Selection`, `Qualifier`, `DiceGroup`, `Term` — the parts of an expression.
* `Expression` — the terms together with the notation they were read from.
* `Term.text`, `Expression.text` — their written forms.
-/

namespace Dicebox

/-- What stands between two values. -/
inductive Operator where
  | plus
  | minus
  deriving DecidableEq, Repr

namespace Operator

/-- The written form of an operator. -/
def text : Operator → String
  | plus => "+"
  | minus => "-"

/-- The total after a value. -/
def apply : Operator → Amount → Amount → Amount
  | plus, total, value => total.plus value
  | minus, total, value => total.minus value

/-- A value with the sign that the operator gives it. -/
def signed : Operator → Amount → Amount
  | plus, value => value
  | minus, value => value.negated

end Operator

/-- The four ways to select dice by rank. -/
inductive Selection where
  | keepHighest
  | keepLowest
  | dropHighest
  | dropLowest
  deriving DecidableEq, Repr

/-- The letters that write a selection. -/
def Selection.letters : Selection → String
  | keepHighest => "kh"
  | keepLowest => "kl"
  | dropHighest => "dh"
  | dropLowest => "dl"

/-- What a group may carry besides its dice. -/
inductive Qualifier where
  /-- Keeps or drops `n` dice by rank. -/
  | select (which : Selection) (n : UInt32)
  /-- Replaces every die that shows the threshold or less. -/
  | reroll (threshold : UInt32)
  /-- Adds a die for every die that shows the threshold or more; without a threshold, for
  every die that shows its highest face. -/
  | explode (threshold : Option UInt32)
  deriving DecidableEq, Repr

/-- The written form of a qualifier. -/
def Qualifier.text : Qualifier → String
  | select which n => which.letters ++ n.toNat.repr
  | reroll threshold => "r" ++ threshold.toNat.repr
  | explode (some threshold) => "!" ++ threshold.toNat.repr
  | explode none => "!"

/-- A positive number of equal dice, with qualifiers. -/
structure DiceGroup where
  count : UInt32
  sides : UInt32
  qualifiers : List Qualifier
  count_pos : 0 < count
  deriving DecidableEq, Repr

namespace DiceGroup

/-- The written form of a group. -/
def text (group : DiceGroup) : String :=
  group.count.toNat.repr ++ "d" ++ group.sides.toNat.repr ++
    String.join (group.qualifiers.map Qualifier.text)

/-- The group with one more qualifier, written last. -/
def qualify (group : DiceGroup) (qualifier : Qualifier) : DiceGroup :=
  { group with qualifiers := group.qualifiers ++ [qualifier] }

end DiceGroup

/-- A part of an expression. -/
inductive Term where
  | dice (group : DiceGroup)
  | constant (value : Amount)
  | operator (op : Operator)
  deriving DecidableEq, Repr

namespace Term

/-- Whether a term is a value rather than an operator. -/
def isValue : Term → Bool
  | operator _ => false
  | _ => true

/-- The written form of a term. -/
def text : Term → String
  | dice group => group.text
  | constant value => value.text
  | operator op => op.text

end Term

/-- Terms, with the notation that they were read from. -/
structure Expression where
  written : String
  terms : List Term
  deriving DecidableEq, Repr

/-- The written form of an expression: its terms, nothing between them. -/
def Expression.text (expression : Expression) : String :=
  String.join (expression.terms.map Term.text)

end Dicebox
