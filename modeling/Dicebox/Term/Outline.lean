import Dicebox.Term

/-!
# Outlines of terms

A fault in the making of an expression names the offending term by its *outline*, which
spells out the parts of the term by name instead of writing it as notation.

## Main definitions

* `Term.outline` — the outline of a term.
-/

namespace Dicebox

/-- The name of a selection in an outline. -/
def Selection.name : Selection → String
  | keepHighest => "KeepHighest"
  | keepLowest => "KeepLowest"
  | dropHighest => "DropHighest"
  | dropLowest => "DropLowest"

/-- The outline of a qualifier: its name, twice, around its number. -/
def Qualifier.outline : Qualifier → String
  | select which n => which.name ++ "(" ++ which.name ++ "(" ++ n.toNat.repr ++ "))"
  | reroll threshold => "Reroll(Reroll(" ++ threshold.toNat.repr ++ "))"
  | explode (some threshold) => "Exploding(Exploding(Some(" ++ threshold.toNat.repr ++ ")))"
  | explode none => "Exploding(Exploding(None))"

/-- The outline of a group: its fields by name. -/
def DiceGroup.outline (group : DiceGroup) : String :=
  "DiceGroup \x7b count: " ++ group.count.toNat.repr ++
    ", sides: " ++ group.sides.toNat.repr ++
    ", qualifiers: [" ++ ", ".intercalate (group.qualifiers.map Qualifier.outline) ++ "] \x7d"

/-- The outline of a term: its kind around its content. -/
def Term.outline : Term → String
  | dice group => "DiceGroup(" ++ group.outline ++ ")"
  | constant value => "Constant(" ++ value.text ++ ")"
  | operator .plus => "Operator(Add)"
  | operator .minus => "Operator(Sub)"

end Dicebox
