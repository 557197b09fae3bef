import Dicebox.Proofs.Reading
import Dicebox.Proofs.Spelling

/-!
# The written form parses back

The written form of an expression is itself notation. This module follows it term by term:
the symbols that a part spells derive the part in the grammar, and parts stand next to each
other without joining, because a number is always followed by a letter, a sign or the end.

## Main results

* `writesQualifiers_symbols`, `writesTerm_symbols`, `spells_terms` — the symbols that the parts
  spell write the parts.
* `parse_text_eq_ok` — the written form of a well-formed expression within the limits parses
  back to its terms.
-/

namespace Dicebox

variable {limits : Limits}

/-! ### Qualifiers -/

/-- The symbols of a qualifier that accepts its dice write it. -/
theorem writesQualifier_symbols {sides : UInt32} {kept : Nat} {qualifier : Qualifier}
    (h : qualifier.Accepts sides kept) :
    WritesQualifier sides.toNat kept qualifier.symbols qualifier := by
  cases qualifier with
  | select which n =>
      have hkind : WritesSelection which.kind which := by cases which <;> constructor
      exact .select hkind rfl h.1 h.2
  | reroll threshold =>
      exact .reroll rfl (UInt32.le_iff_toNat_le.mp h.1) (UInt32.lt_iff_toNat_lt.mp h.2)
  | explode threshold =>
      cases threshold with
      | none => exact .explodeHighest
      | some threshold =>
          exact .explode rfl (UInt32.le_iff_toNat_le.mp h.1) (UInt32.le_iff_toNat_le.mp h.2)

/-- The symbols of qualifiers without a flaw write them. -/
theorem writesQualifiers_symbols {group : DiceGroup} {kept : Nat} {qualifiers : List Qualifier}
    (h : group.qualifierFlaw? kept qualifiers = none) :
    WritesQualifiers group.sides.toNat kept (qualifiers.flatMap Qualifier.symbols) qualifiers := by
  induction qualifiers generalizing kept with
  | nil => exact .nil
  | cons qualifier qualifiers ih =>
      obtain ⟨haccepts, hmore⟩ := qualifierFlaw?_cons_eq_none_iff.mp h
      exact .cons (writesQualifier_symbols haccepts) (ih hmore)

/-! ### Terms -/

/-- The symbols of a group without a flaw write it, if the group is within the limits. -/
theorem writesTerm_symbols {group : DiceGroup} (hflaw : group.flaw? = none)
    (hcount : group.count ≤ limits.maxDice) (hsides : group.sides ≤ limits.maxSides) :
    WritesTerm limits group.symbols (.dice group) := by
  rw [DiceGroup.flaw?] at hflaw
  split at hflaw
  · next htwo =>
      have hpos : 1 ≤ group.count.toNat := UInt32.lt_iff_toNat_lt.mp group.count_pos
      exact .dice (.number rfl hpos (UInt32.le_iff_toNat_le.mp hcount))
        (.number rfl (UInt32.le_iff_toNat_le.mp htwo) (UInt32.le_iff_toNat_le.mp hsides))
        (writesQualifiers_symbols hflaw)
  · cases hflaw

/-- The written form of a constant that is not negative spells a number that writes it. -/
theorem spells_constant {value : Amount} (h : 0 ≤ value.toInt) :
    ∃ front, Spells value.text.toList front ∧ WritesTerm limits front (.constant value) := by
  obtain ⟨n, hn⟩ := Int.eq_ofNat_of_zero_le h
  have htext : value.text = n.repr := by
    rw [Amount.text, hn]
    rfl
  rw [htext]
  exact ⟨_, spells_repr n, .constant hn (le_of_toInt_eq hn)⟩

/-! ### Expressions -/

/-- What the written form of an expression asks of its terms to be notation within limits:
no constant is negative, and no group is beyond the limits. -/
def Expressible (limits : Limits) (terms : List Term) : Prop :=
  (∀ value, .constant value ∈ terms → 0 ≤ value.toInt) ∧
    ∀ group, .dice group ∈ terms →
      group.count ≤ limits.maxDice ∧ group.sides ≤ limits.maxSides

/-- Fewer terms ask for less. -/
theorem Expressible.mono {terms terms' : List Term} (h : Expressible limits terms)
    (hsub : terms' ⊆ terms) : Expressible limits terms' :=
  ⟨fun value hvalue => h.1 value (hsub hvalue), fun group hgroup => h.2 group (hsub hgroup)⟩

/-- The written form of a value spells symbols that write it. -/
theorem spells_value {term : Term} (hvalue : term.isValue) (hflaw : term.flaw? = none)
    (h : Expressible limits [term]) :
    ∃ front, Spells term.text.toList front ∧ WritesTerm limits front term := by
  cases term with
  | dice group =>
      obtain ⟨hcount, hsides⟩ := h.2 group List.mem_cons_self
      exact ⟨_, spells_group group, writesTerm_symbols hflaw hcount hsides⟩
  | constant value => exact spells_constant (h.1 value List.mem_cons_self)
  | operator op => cases hvalue

/-- The written forms of terms, one behind the other. -/
def termsText (terms : List Term) : List Char :=
  terms.flatMap fun term => term.text.toList

/-- An operator spells its sign in front of anything, and no digit. -/
theorem spells_operator (op : Operator) {text : List Char} {front : List Symbol}
    (h : Spells text front) :
    ∃ kind, WritesOperator kind op ∧ Spells (op.text.toList ++ text) (⟨kind, 0⟩ :: front) ∧
      ∀ rest, NoDigitHead (op.text.toList ++ text ++ rest) := by
  cases op with
  | plus => exact ⟨_, .plus, h.cons rfl rfl fun _ => rfl, fun _ => noDigitHead_cons rfl _⟩
  | minus => exact ⟨_, .minus, h.cons rfl rfl fun _ => rfl, fun _ => noDigitHead_cons rfl _⟩

/-- The written forms of a well-formed list of terms spell symbols that write it. -/
theorem spells_terms {terms : List Term} (hformed : WellFormed terms)
    (h : Expressible limits terms) :
    ∃ all, Spells (termsText terms) all ∧ Writes limits all terms := by
  induction hformed with
  | @value term hvalue hflaw =>
      obtain ⟨front, hspells, hwrites⟩ := spells_value hvalue hflaw h
      rw [termsText, List.flatMap_singleton]
      exact ⟨front, hspells, .term hwrites⟩
  | @chain term op more hvalue hflaw _ ih =>
      have hterm : Expressible limits [term] := h.mono (by simp)
      have hmore : Expressible limits more := h.mono fun _ hmem =>
        List.mem_cons_of_mem _ (List.mem_cons_of_mem _ hmem)
      obtain ⟨front, hspells, hwrites⟩ := spells_value hvalue hflaw hterm
      obtain ⟨all, hspellsMore, hwritesMore⟩ := ih hmore
      obtain ⟨kind, hkind, hspellsOp, hdigit⟩ := spells_operator op hspellsMore
      have htext : termsText (term :: .operator op :: more) =
          term.text.toList ++ (op.text.toList ++ termsText more) := rfl
      rw [htext]
      have hall := hspells.append hspellsOp fun rest _ => hdigit rest
      exact ⟨_, hall, .chain hwrites hkind hwritesMore⟩

/-- The written form of a well-formed expression is parsed, within limits that it keeps, and
its terms are read back from it. -/
theorem parse_text_eq_ok {expression : Expression} (hformed : WellFormed expression.terms)
    (h : Expressible limits expression.terms) :
    parse limits expression.text = .ok ⟨expression.text, expression.terms⟩ := by
  obtain ⟨all, hspells, hwrites⟩ := spells_terms hformed h
  have htext : expression.text.toList = termsText expression.terms := by
    rw [Expression.text, String.toList_join, List.flatMap_map]
    rfl
  rw [parse_eq_ok_iff]
  refine ⟨rfl, ?_⟩
  rw [htext, hspells.symbols_eq]
  exact hwrites

/-- **The written form parses back.** An expression without a flaw whose constants are not
negative and whose groups are within the limits is read back from its written form. So is
every expression that was parsed, whatever spelling it was parsed from, unless the limits do
not even allow one die. -/
theorem parse_text (limits : Limits) :
    (∀ expression : Expression, flaw? expression.terms = none →
      (∀ value, .constant value ∈ expression.terms → 0 ≤ value.toInt) →
      (∀ group, .dice group ∈ expression.terms →
        group.count ≤ limits.maxDice ∧ group.sides ≤ limits.maxSides) →
      parse limits expression.text = .ok ⟨expression.text, expression.terms⟩) ∧
    (1 ≤ limits.maxDice → ∀ (text : String) (expression : Expression),
      parse limits text = .ok expression →
      parse limits expression.text = .ok ⟨expression.text, expression.terms⟩) := by
  constructor
  · intro expression hflaw hconstant hgroup
    exact parse_text_eq_ok (flaw?_eq_none_iff.mp hflaw) ⟨hconstant, hgroup⟩
  · intro hdice text expression h
    have hwrites := (parse_eq_ok_iff.mp h).2
    refine parse_text_eq_ok hwrites.wellFormed ⟨?_, ?_⟩
    · exact fun value hvalue => hwrites.constant_nonneg hvalue
    · exact fun group hgroup => hwrites.group_within hdice hgroup

/-- An expression made by hand, and one read from notation with spaces, capitals, leading
zeros and short spellings: both are read back from their written forms. -/
theorem parse_text_of_made_and_of_spaced :
    (∃ made : List Term, made.length = 3 ∧ flaw? made = none ∧
      parse {} "4d6kh3!5-7" = .ok ⟨"4d6kh3!5-7", made⟩) ∧
    ∃ expression : Expression,
      parse {} " 4D6 K3 + d% R - 007" = .ok expression ∧
        parse {} "4d6kh3+1d100r1-7" = .ok ⟨"4d6kh3+1d100r1-7", expression.terms⟩ := by
  constructor
  · let made : List Term :=
      [.dice ⟨4, 6, [.select .keepHighest 3, .explode (some 5)], by decide⟩,
        .operator .minus, .constant 7]
    have hflaw : flaw? made = none := by decide
    have hconstant : ∀ value : Amount, .constant value ∈ made → 0 ≤ value.toInt := by
      simp [made]
    have hgroup : ∀ group : DiceGroup, .dice group ∈ made →
        group.count ≤ 1000 ∧ group.sides ≤ 10000 := by
      simp [made]
    exact ⟨made, rfl, hflaw, (parse_text {}).1 ⟨"", made⟩ hflaw hconstant hgroup⟩
  · have hparse : parse {} " 4D6 K3 + d% R - 007" = .ok
        ⟨" 4D6 K3 + d% R - 007",
          [.dice ⟨4, 6, [.select .keepHighest 3], by decide⟩, .operator .plus,
            .dice ⟨1, 100, [.reroll 1], by decide⟩, .operator .minus, .constant 7]⟩ := by
      decide +kernel
    exact ⟨_, hparse, (parse_text {}).2 (by decide) _ _ hparse⟩

end Dicebox
