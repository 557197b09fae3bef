import Dicebox.Proofs.Lexing

/-!
# What the written forms spell

A written form is a text, and it spells symbols whether or not it makes sense as notation. A
qualifier spells its marker and its number, if it has one; a group spells its count, a `d`, its
sides, and its qualifiers one behind the other. No symbol of a part joins one of the next: a
number is always followed by a letter, a sign or the end.

## Main definitions

* `Qualifier.marker`, `Qualifier.number?` — the two parts of a qualifier.
* `Qualifier.symbols` — what a qualifier spells.

## Main results

* `spells_qualifier`, `spells_qualifiers` — the written forms of qualifiers.
* `spells_group` — the written form of a group.
-/

namespace Dicebox

/-! ### Qualifiers -/

/-- The token that writes a selection in full. -/
def Selection.kind : Selection → TokenKind
  | keepHighest => .keepHighest
  | keepLowest => .keepLowest
  | dropHighest => .dropHighest
  | dropLowest => .dropLowest

/-- The token that a written form has for a marker. -/
def Marker.kind : Marker → TokenKind
  | select which => which.kind
  | reroll => .reroll
  | explode => .explode

/-- The token of a marker is read as the marker. -/
@[simp] theorem Marker.ofKind_kind (marker : Marker) : ofKind marker.kind = some marker := by
  cases marker with
  | select which => cases which <;> rfl
  | reroll | explode => rfl

namespace Qualifier

/-- What a qualifier begins with. -/
def marker : Qualifier → Marker
  | select which _ => .select which
  | reroll _ => .reroll
  | explode _ => .explode

/-- The number of a qualifier. Only an explosion on the highest face has none. -/
def number? : Qualifier → Option UInt32
  | select _ n => some n
  | reroll threshold => some threshold
  | explode threshold => threshold

/-- The symbols that the written form of a qualifier spells. -/
def symbols (qualifier : Qualifier) : List Symbol :=
  ⟨qualifier.marker.kind, 0⟩ ::
    qualifier.number?.toList.map fun number => ⟨.integer, number.toNat⟩

end Qualifier

/-- The written form of a qualifier spells its symbols. -/
theorem spells_qualifier (qualifier : Qualifier) :
    Spells qualifier.text.toList qualifier.symbols := by
  cases qualifier with
  | select which n =>
      rw [Qualifier.text, String.toList_append]
      cases which with
      | keepHighest | keepLowest | dropHighest | dropLowest =>
          exact spells_letters_repr rfl rfl rfl n.toNat
  | reroll threshold =>
      rw [Qualifier.text, String.toList_append]
      exact spells_letter_repr (c := 'r') rfl rfl threshold.toNat
  | explode threshold =>
      cases threshold with
      | none => exact spells_nil.cons rfl rfl fun _ => rfl
      | some threshold =>
          rw [Qualifier.text, String.toList_append]
          exact spells_letter_repr (c := '!') rfl rfl threshold.toNat

/-- The written form of a qualifier begins with no digit. -/
theorem noDigitHead_qualifier (qualifier : Qualifier) (rest : List Char) :
    NoDigitHead (qualifier.text.toList ++ rest) := by
  cases qualifier with
  | select which n =>
      rw [Qualifier.text, String.toList_append]
      cases which <;> exact noDigitHead_cons rfl _
  | reroll threshold =>
      rw [Qualifier.text, String.toList_append]
      exact noDigitHead_cons rfl _
  | explode threshold =>
      cases threshold with
      | none => exact noDigitHead_cons rfl _
      | some threshold =>
          rw [Qualifier.text, String.toList_append]
          exact noDigitHead_cons rfl _

/-- The written forms of qualifiers, one behind the other. -/
def qualifiersText (qualifiers : List Qualifier) : List Char :=
  qualifiers.flatMap fun qualifier => qualifier.text.toList

/-- Qualifiers begin with no digit, if none follows them. -/
theorem noDigitHead_qualifiers (qualifiers : List Qualifier) {rest : List Char}
    (hrest : NoDigitHead rest) : NoDigitHead (qualifiersText qualifiers ++ rest) := by
  cases qualifiers with
  | nil => exact hrest
  | cons qualifier qualifiers =>
      rw [qualifiersText, List.flatMap_cons, List.append_assoc]
      exact noDigitHead_qualifier qualifier _

/-- The written forms of qualifiers spell their symbols, one behind the other. -/
theorem spells_qualifiers (qualifiers : List Qualifier) :
    Spells (qualifiersText qualifiers) (qualifiers.flatMap Qualifier.symbols) := by
  induction qualifiers with
  | nil => exact spells_nil
  | cons qualifier qualifiers ih =>
      exact (spells_qualifier qualifier).append ih fun _ => noDigitHead_qualifiers qualifiers

/-! ### Groups -/

/-- The symbols that the written form of a group spells. -/
def DiceGroup.symbols (group : DiceGroup) : List Symbol :=
  ⟨.integer, group.count.toNat⟩ :: ⟨.dice, 0⟩ :: ⟨.integer, group.sides.toNat⟩ ::
    group.qualifiers.flatMap Qualifier.symbols

/-- The written form of a group spells its symbols. -/
theorem spells_group (group : DiceGroup) : Spells group.text.toList group.symbols := by
  have htext : group.text.toList = group.count.toNat.repr.toList ++
      (('d' :: group.sides.toNat.repr.toList) ++ qualifiersText group.qualifiers) := by
    rw [DiceGroup.text, String.toList_append, String.toList_append, String.toList_append,
      String.toList_join, List.flatMap_map, List.append_assoc, List.append_assoc]
    rfl
  have hdice : Spells (('d' :: group.sides.toNat.repr.toList) ++ qualifiersText group.qualifiers)
      ([⟨.dice, 0⟩, ⟨.integer, group.sides.toNat⟩] ++
        group.qualifiers.flatMap Qualifier.symbols) :=
    (spells_letter_repr rfl rfl _).append (spells_qualifiers group.qualifiers)
      fun _ => noDigitHead_qualifiers group.qualifiers
  rw [htext]
  exact (spells_repr _).append hdice fun _ _ => noDigitHead_cons rfl _

end Dicebox
