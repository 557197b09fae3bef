import Dicebox.Proofs.Lexing
import Dicebox.Proofs.Reading

/-!
# Groups within limits

Limits bound what one group may ask for, whichever way the group is written. They do so for the
sides of its dice, written as a number or as `%`, and for a count that is written. A count that
is not written is one die, and is measured against no limit. So limits that allow no die at all
still let single dice through, and this is the only way past them.

No limit bounds how many qualifiers a group carries, but each of them takes a character at least.

## Main results

* `WritesCount.le_or_eq_one`, `WritesTerm.sides_within` — what symbols write as a group.
* `parse_group_within` — the groups of a text that was parsed.
* `length_qualifiers_le_of_parse` — how many qualifiers such a group carries.
* `parse_omitted_count_exceeds` — a single die in spite of a limit of no dice.
-/

namespace Dicebox

variable {limits : Limits}

/-- The count that symbols write is within the limit, or it is the one die that goes without a
number. -/
theorem WritesCount.le_or_eq_one {front : List Symbol} {count : UInt32}
    (h : WritesCount limits front count) : count ≤ limits.maxDice ∨ front = [] ∧ count = 1 := by
  cases h with
  | omitted => exact .inr ⟨rfl, rfl⟩
  | number hn _ hmax =>
      subst hn
      exact .inl (UInt32.le_iff_toNat_le.mpr hmax)

/-- The group that symbols write has dice of two sides or more, within the limit. -/
theorem WritesTerm.sides_within {front : List Symbol} {group : DiceGroup}
    (h : WritesTerm limits front (.dice group)) :
    2 ≤ group.sides ∧ group.sides ≤ limits.maxSides := by
  cases h with
  | dice _ hsides _ =>
      obtain ⟨htwo, hmax⟩ := hsides.two_le_and_le
      exact ⟨UInt32.le_iff_toNat_le.mpr htwo, UInt32.le_iff_toNat_le.mpr hmax⟩

/-- The group that symbols write has no more dice than the limit, or one die. -/
theorem WritesTerm.count_within {front : List Symbol} {group : DiceGroup}
    (h : WritesTerm limits front (.dice group)) :
    group.count ≤ limits.maxDice ∨ group.count = 1 := by
  cases h with
  | dice hcount _ _ => exact hcount.le_or_eq_one.imp_right And.right

/-- Every qualifier takes a symbol at least. -/
theorem WritesQualifiers.length_le {sides kept : Nat} {front : List Symbol}
    {qualifiers : List Qualifier} (h : WritesQualifiers sides kept front qualifiers) :
    qualifiers.length ≤ front.length := by
  induction h with
  | nil => exact Nat.le_refl 0
  | @cons _ front more _ qualifiers hqualifier _ ih =>
      have hpos : 1 ≤ front.length := by
        cases hqualifier <;> exact Nat.le_add_left 1 _
      rw [List.length_cons, List.length_append]
      omega

/-- **Parsed groups are within limits that allow a die.** The dice of a group that was parsed
have at least two sides and at most those that the limits allow, however they were written. Its
count is within the limit exactly when the limit allows any die; if it allows none, the group is
a single die. -/
theorem parse_group_within {text : String} {expression : Expression}
    (h : parse limits text = .ok expression) :
    ∀ group, .dice group ∈ expression.terms →
      2 ≤ group.sides ∧ group.sides ≤ limits.maxSides ∧
        (group.count ≤ limits.maxDice ↔ limits.maxDice ≠ 0) ∧
        (limits.maxDice = 0 → group.count = 1) := by
  intro group hgroup
  obtain ⟨row, -, hwrites⟩ := (parse_eq_ok_iff.mp h).2.exists_writesTerm hgroup rfl
  obtain ⟨htwo, hmax⟩ := hwrites.sides_within
  have hpos : 0 < group.count.toNat := UInt32.lt_iff_toNat_lt.mp group.count_pos
  have hzero : limits.maxDice = 0 ↔ limits.maxDice.toNat = 0 := UInt32.toNat_inj.symm
  have hone : group.count = 1 ↔ group.count.toNat = 1 := UInt32.toNat_inj.symm
  have hcount := hwrites.count_within
  rw [hone, UInt32.le_iff_toNat_le] at hcount
  refine ⟨htwo, hmax, ?_, ?_⟩
  · rw [UInt32.le_iff_toNat_le, Ne, hzero]
    omega
  · rw [hzero, hone]
    omega

/-- Two groups at the bounds of limits, one of them with a count, and a single die in spite of a
limit of no dice. -/
theorem parse_group_within_of_bounds :
    (∃ expression : Expression, parse ⟨10, 100⟩ "10d%! + D100" = .ok expression ∧
      ∀ group, .dice group ∈ expression.terms → group.sides ≤ 100 ∧ group.count ≤ 10) ∧
    ∃ expression : Expression, parse ⟨0, 100⟩ "d6 - 1" = .ok expression ∧
      ∀ group, .dice group ∈ expression.terms → group.count = 1 := by
  constructor
  · have hparse : parse ⟨10, 100⟩ "10d%! + D100" = .ok ⟨"10d%! + D100",
        [.dice ⟨10, 100, [.explode none], by decide⟩, .operator .plus,
          .dice ⟨1, 100, [], by decide⟩]⟩ := by
      decide +kernel
    refine ⟨_, hparse, fun group hgroup => ?_⟩
    obtain ⟨-, hsides, hcount, -⟩ := parse_group_within hparse group hgroup
    exact ⟨hsides, hcount.mpr (by decide)⟩
  · have hparse : parse ⟨0, 100⟩ "d6 - 1" = .ok ⟨"d6 - 1",
        [.dice ⟨1, 6, [], by decide⟩, .operator .minus, .constant 1]⟩ := by
      decide +kernel
    exact ⟨_, hparse, fun group hgroup => (parse_group_within hparse group hgroup).2.2.2 rfl⟩

/-- A limit of no dice rejects one die that is counted, and lets through one that is not. -/
theorem parse_omitted_count_exceeds :
    (∃ group, parse ⟨0, 10000⟩ "d6" = .ok ⟨"d6", [.dice group]⟩ ∧ ¬ group.count ≤ 0) ∧
      parse ⟨0, 10000⟩ "1d6" = .error ⟨.tooManyDice 1 0, 0, 0, 1, "1"⟩ := by
  refine ⟨⟨⟨1, 6, [], by decide⟩, ?_, by decide⟩, ?_⟩
  · decide +kernel
  · decide +kernel

end Dicebox
