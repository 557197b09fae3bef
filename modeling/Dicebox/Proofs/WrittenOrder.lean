import Dicebox.Proofs.Accounts
import Dicebox.Proofs.Numbering
import Dicebox.Proofs.Particulars

/-!
# The order of the modifiers

The entries of a table stand in the order of their keys, and are listed by the numbers in their
keys. This module says which order that is, for any table: entries without a number come first, then
the others by their numbers, and entries that the number does not tell apart keep the order of their
keys. The last part is the stability of the sort. It is shown at once for all entries of one number:
they are a sorted part of the table, so they are a part of the sorted table.

Which keys have a number is said without reading them: behind the stem there are decimal digits,
which may begin with zeros and have a plus in front, and write a number of 64 bits.

The table of a roll holds the constants of its expression under the numbers at which they are
written, so it is listed in the written order.

## Main definitions

* `Modifiers.HasOrdinal` — the keys with a number.
* `Modifiers.Precedes` — the order of keys in the list.
* `Operand.recorded?` — what is recorded of an operand.

## Main results

* `Modifiers.ordinal?_eq_some_iff` — the number that is read in a key is the one that it has.
* `Modifiers.filter_inOrder` — entries of one number keep their order.
* `Modifiers.pairwise_inOrder` — the order of the list.
* `Expression.roll_inOrder` — the order of any table, and of the table of a roll.
-/

namespace Dicebox

/-! ### Numbers in keys -/

namespace Text

/-- A text writes a 64-bit number when it is digits, or a plus and digits, that write it. -/
theorem word64?_eq_some_iff {cs : List Char} {n : Nat} :
    word64? cs = some n ↔
      ∃ digits, (cs = digits ∨ cs = '+' :: digits) ∧ IsNumeral digits n ∧ n < 2 ^ 64 := by
  have hdigits {digits : List Char} :
      (if digits ≠ [] ∧ digits.all Char.isDigit ∧ Nat.ofDigitChars 10 digits 0 < UInt64.size then
        some (Nat.ofDigitChars 10 digits 0) else none) = some n ↔
          IsNumeral digits n ∧ n < 2 ^ 64 := by
    rw [Option.ite_none_right_eq_some, Option.some.injEq, IsNumeral, decimal_eq_ofDigitChars,
      List.all_eq_true]
    constructor
    · rintro ⟨⟨hne, hall, hlt⟩, rfl⟩
      exact ⟨⟨hne, hall, rfl⟩, hlt⟩
    · rintro ⟨⟨hne, hall, rfl⟩, hlt⟩
      exact ⟨⟨hne, hall, hlt⟩, rfl⟩
  -- A plus is no digit, so only one of the two readings is possible.
  by_cases hplus : ∃ more, cs = '+' :: more
  · obtain ⟨more, rfl⟩ := hplus
    refine hdigits.trans ⟨fun h => ⟨more, .inr rfl, h⟩, ?_⟩
    rintro ⟨digits, rfl | heq, hnumeral⟩
    · exact absurd (hnumeral.1.2.1 '+' List.mem_cons_self) (by decide)
    · rwa [(List.cons.inj heq).2]
  · have hne : ∀ more, cs ≠ '+' :: more := fun more heq => hplus ⟨more, heq⟩
    rw [word64?, hdigits]
    · refine ⟨fun h => ⟨cs, .inl rfl, h⟩, ?_⟩
      rintro ⟨digits, rfl | heq, hnumeral⟩
      · exact hnumeral
      · exact absurd heq (hne digits)
    · exact hne

end Text

namespace Modifiers

/-- A key has a number: it is the stem and digits that write a 64-bit number, maybe with a plus
between them. -/
def HasOrdinal (key : String) (n : Nat) : Prop :=
  ∃ sign ∈ ["", "+"], ∃ digits,
    key = stem ++ sign ++ String.ofList digits ∧ IsNumeral digits n ∧ n < 2 ^ 64

/-- The number that is read in a key is the one that it has. -/
theorem ordinal?_eq_some_iff {key : String} {n : Nat} :
    ordinal? key = some n ↔ HasOrdinal key n := by
  have hkey {sign : String} {digits : List Char} : key = stem ++ sign ++ String.ofList digits ↔
      stem.toList ++ (sign.toList ++ digits) = key.toList := by
    rw [← String.toList_inj, String.toList_append, String.toList_append, String.toList_ofList,
      List.append_assoc, eq_comm]
  rw [ordinal?, Option.bind_eq_some_iff]
  constructor
  · rintro ⟨rest, hrest, hword⟩
    rw [List.isPrefixOf?_eq_some_iff_append_eq] at hrest
    obtain ⟨digits, rfl | rfl, hnumeral⟩ := Text.word64?_eq_some_iff.mp hword
    · exact ⟨"", by decide, rest, hkey.mpr hrest, hnumeral⟩
    · exact ⟨"+", by decide, digits, hkey.mpr hrest, hnumeral⟩
  · rintro ⟨sign, hsign, digits, heq, hnumeral⟩
    refine ⟨_, List.isPrefixOf?_eq_some_iff_append_eq.mpr (hkey.mp heq),
      Text.word64?_eq_some_iff.mpr ⟨digits, ?_, hnumeral⟩⟩
    rcases List.mem_cons.mp hsign with rfl | hsign
    · exact .inl rfl
    · obtain rfl := List.mem_singleton.mp hsign
      exact .inr rfl

/-- A key without a number is one in which none is read. -/
theorem ordinal?_eq_none_iff {key : String} : ordinal? key = none ↔ ∀ n, ¬ HasOrdinal key n := by
  simp only [Option.eq_none_iff_forall_not_mem, Option.mem_def, ordinal?_eq_some_iff]

/-! ### The order of the list -/

/-- One key comes before another in the list of the entries. -/
inductive Precedes : String → String → Prop
  /-- Keys without a number come before those with one. -/
  | unnumbered {a b : String} {n : Nat} :
      (∀ m, ¬ HasOrdinal a m) → HasOrdinal b n → Precedes a b
  /-- Keys come in the order of their numbers. -/
  | smaller {a b : String} {m n : Nat} :
      HasOrdinal a m → HasOrdinal b n → m < n → Precedes a b
  /-- Keys with the same number, or both without one, come in their own order. -/
  | same {a b : String} : (∀ n, HasOrdinal a n ↔ HasOrdinal b n) → a < b → Precedes a b

/-- The order of keys, by the numbers that are read in them. -/
theorem precedes_iff {a b : String} :
    Precedes a b ↔
      ordinalLE (ordinal? a) (ordinal? b) ∧ (ordinal? a = ordinal? b → a < b) := by
  constructor
  · rintro (⟨ha, hb⟩ | ⟨ha, hb, hlt⟩ | ⟨hsame, hlt⟩)
    · rw [ordinal?_eq_none_iff.mpr ha, ordinal?_eq_some_iff.mpr hb]
      exact ⟨rfl, nofun⟩
    · rw [ordinal?_eq_some_iff.mpr ha, ordinal?_eq_some_iff.mpr hb]
      exact ⟨decide_eq_true (Nat.le_of_lt hlt), fun heq =>
        absurd (Option.some.inj heq) (Nat.ne_of_lt hlt)⟩
    · have heq : ordinal? a = ordinal? b := by
        refine Option.ext fun n => ?_
        rw [ordinal?_eq_some_iff, ordinal?_eq_some_iff]
        exact hsame n
      rw [heq]
      exact ⟨by simpa using ordinalLE_total (ordinal? b) (ordinal? b), fun _ => hlt⟩
  · rintro ⟨hle, hlt⟩
    cases ha : ordinal? a with
    | none =>
        cases hb : ordinal? b with
        | none =>
            refine .same (fun n => iff_of_false ?_ ?_) (hlt (ha.trans hb.symm))
            · exact ordinal?_eq_none_iff.mp ha n
            · exact ordinal?_eq_none_iff.mp hb n
        | some n => exact .unnumbered (ordinal?_eq_none_iff.mp ha) (ordinal?_eq_some_iff.mp hb)
    | some m =>
        cases hb : ordinal? b with
        | none =>
            rw [ha, hb] at hle
            cases hle
        | some n =>
            rw [ha, hb] at hle
            rcases Nat.lt_or_eq_of_le (of_decide_eq_true hle) with hless | rfl
            · exact .smaller (ordinal?_eq_some_iff.mp ha) (ordinal?_eq_some_iff.mp hb) hless
            · refine .same (fun n => ?_) (hlt (ha.trans hb.symm))
              rw [← ordinal?_eq_some_iff, ← ordinal?_eq_some_iff, ha, hb]

instance (a b : String) : Decidable (Precedes a b) :=
  decidable_of_iff _ precedes_iff.symm

/-- Of two keys only one precedes the other. -/
theorem Precedes.asymm {a b : String} (hab : Precedes a b) (hba : Precedes b a) : False := by
  obtain ⟨hle, hlt⟩ := precedes_iff.mp hab
  obtain ⟨hge, hgt⟩ := precedes_iff.mp hba
  have hsame := ordinalLE_antisymm hle hge
  exact String.lt_asymm (hlt hsame) (hgt hsame.symm)

/-- The entries whose keys have one number, or none, are listed in the order of the table. They are
sorted as they stand, so they stand in this order among the sorted entries. -/
theorem filter_inOrder (modifiers : Modifiers) (ordinal : Option Nat) :
    (modifiers.inOrder.filter fun entry => ordinal? entry.1 == ordinal) =
      modifiers.entries.filter fun entry => ordinal? entry.1 == ordinal := by
  have hsorted : (modifiers.entries.filter fun entry => ordinal? entry.1 == ordinal).Pairwise
      fun a b => ordinalLE (ordinal? a.1) (ordinal? b.1) := by
    refine List.pairwise_of_forall_mem_list fun a ha b hb => ?_
    rw [beq_iff_eq.mp (List.mem_filter.mp ha).2, beq_iff_eq.mp (List.mem_filter.mp hb).2]
    simpa using ordinalLE_total ordinal ordinal
  have hsublist : (modifiers.entries.filter fun entry => ordinal? entry.1 == ordinal).Sublist
      modifiers.inOrder :=
    @List.sublist_mergeSort (String × Amount) (fun a b => ordinalLE (ordinal? a.1) (ordinal? b.1))
      _ (fun _ _ _ => ordinalLE_trans) (fun _ _ => ordinalLE_total _ _) _ hsorted
      List.filter_sublist
  -- Among the sorted entries there are no more of this number than these.
  have hfilter := hsublist.filter fun entry => ordinal? entry.1 == ordinal
  rw [List.filter_filter] at hfilter
  simp only [Bool.and_self] at hfilter
  exact (hfilter.eq_of_length (modifiers.inOrder_perm.filter _).length_eq.symm).symm

/-- The entries are listed by the numbers in their keys, and entries of one number in the order of
the keys. -/
theorem pairwise_inOrder (modifiers : Modifiers) :
    modifiers.inOrder.Pairwise fun a b => Precedes a.1 b.1 := by
  rw [List.pairwise_iff_forall_sublist]
  intro a b hab
  have hle := List.pairwise_iff_forall_sublist.mp modifiers.pairwise_ordinalLE_inOrder hab
  refine precedes_iff.mpr ⟨hle, fun hsame => ?_⟩
  have hfilter := hab.filter fun entry => ordinal? entry.1 == ordinal? b.1
  rw [filter_inOrder] at hfilter
  simp only [List.filter_cons, hsame, beq_self_eq_true, if_true, List.filter_nil] at hfilter
  exact List.pairwise_iff_forall_sublist.mp modifiers.ascending
    (hfilter.trans List.filter_sublist)

/-- There is one such order of the entries, and the list is in it. -/
theorem inOrder_eq_iff {modifiers : Modifiers} {entries : List (String × Amount)} :
    modifiers.inOrder = entries ↔
      entries.Perm modifiers.entries ∧ entries.Pairwise fun a b => Precedes a.1 b.1 := by
  constructor
  · rintro rfl
    exact ⟨modifiers.inOrder_perm, modifiers.pairwise_inOrder⟩
  · rintro ⟨hperm, hpairwise⟩
    exact (modifiers.inOrder_perm.trans hperm.symm).eq_of_pairwise
      (fun _ _ _ _ hab hba => (hab.asymm hba).elim) modifiers.pairwise_inOrder hpairwise

end Modifiers

/-! ### The table of a roll -/

/-- What is recorded of an operand, if it is a constant: the constant with the sign of its operator,
or the amount closest to it. -/
def Operand.recorded? : Operand → Option Amount
  | constant op value => some (.nearest (op.sign value.toInt))
  | dice _ _ => none

/-- An amount with its sign is the amount closest to the integer with this sign. -/
theorem Operator.signed_eq_nearest (op : Operator) (value : Amount) :
    op.signed value = .nearest (op.sign value.toInt) := by
  cases op with
  | plus => exact (Amount.nearest_toInt value).symm
  | minus => rfl

/-- What contributions enter into the table is what is recorded of the operands. -/
theorem filterMap_constant?_eq_recorded? {terms : List Operand} {rolled : List Contribution}
    (h : List.Forall₂ Contributes terms rolled) :
    rolled.filterMap Contribution.constant? = terms.filterMap Operand.recorded? := by
  induction h with
  | nil => rfl
  | cons hfirst _ ih =>
      cases hfirst with
      | @constant op value =>
          rw [List.filterMap_cons, List.filterMap_cons, ih, Contribution.constant?,
            op.signed_eq_nearest]
          rfl
      | dice => exact ih

/-- The table of an outcome is that of what is recorded of the operands. -/
theorem Expression.modifiers_eq_ofConstants {build : Build} {σ : Type} [DieSource σ]
    {expression : Expression} {source left : σ} {outcome : Outcome}
    (h : (expression.roll build).run source = (.ok outcome, left)) :
    outcome.modifiers =
      .ofConstants ((operands expression.terms).filterMap Operand.recorded?) := by
  obtain ⟨-, rolled, hrolled, rfl⟩ := Expression.exists_contributes_of_run h
  exact congrArg Modifiers.ofConstants (filterMap_constant?_eq_recorded? hrolled)

/-- **The order of the modifiers.** The list of the entries of any table is the one rearrangement of
them in which keys without a number come first, then the others by their numbers, and keys with the
same number in their own order. For the table of a roll, which stands in the order of its keys, this
is the written order: the list is what is recorded of the constants of the expression, each with the
sign of the operator directly before it, under the numbers from one on. -/
theorem Expression.roll_inOrder :
    (∀ (modifiers : Modifiers) (entries : List (String × Amount)),
      modifiers.inOrder = entries ↔
        entries.Perm modifiers.entries ∧ entries.Pairwise fun a b => Modifiers.Precedes a.1 b.1) ∧
    ∀ {build : Build} {σ : Type} [DieSource σ] {expression : Expression} {source left : σ}
      {outcome : Outcome}, (expression.roll build).run source = (.ok outcome, left) →
      (operands expression.terms).flatMap Operand.terms = .operator .plus :: expression.terms ∧
      outcome.modifiers.entries.Pairwise (fun a b => a.1 < b.1) ∧
      (((operands expression.terms).filterMap Operand.recorded?).length < 2 ^ 64 →
        outcome.modifiers.inOrder =
          Modifiers.numbered ((operands expression.terms).filterMap Operand.recorded?)) := by
  refine ⟨fun _ _ => Modifiers.inOrder_eq_iff, fun {_ _ _ expression _ _ outcome} hrun => ?_⟩
  obtain ⟨hformed, -⟩ := Expression.exists_contributes_of_run hrun
  refine ⟨hformed.flatMap_terms_operandsFrom .plus, outcome.modifiers.ascending, fun hlength => ?_⟩
  rw [Expression.modifiers_eq_ofConstants hrun]
  exact Modifiers.inOrder_ofConstants hlength

/-- A table from outside, with a key that is none of a constant, a number that is too large, and one
number written in three ways; and eleven constants, of which the last is the smallest amount behind
a minus. -/
theorem Expression.roll_inOrder_of_odd_and_of_eleven :
    (Modifiers.ofEntries [("constant_10", 1), ("constant_2", 2), ("constant_+1", 3),
        ("constant_01", 4), ("constant_1", 5), ("constant_18446744073709551616", 6),
        ("luck", 7)]).inOrder =
      [("constant_18446744073709551616", 6), ("luck", 7), ("constant_+1", 3), ("constant_01", 4),
        ("constant_1", 5), ("constant_2", 2), ("constant_10", 1)] ∧
    ∃ (expression : Expression) (outcome : Outcome),
      expression.text = "1+2+3+4+5+6+7-8+9+10--9223372036854775808" ∧
      expression.roll.run (⟨[]⟩ : Replay) = (.ok outcome, ⟨[]⟩) ∧
      outcome.modifiers.entries.map Prod.fst =
        ["constant_1", "constant_10", "constant_11", "constant_2", "constant_3", "constant_4",
          "constant_5", "constant_6", "constant_7", "constant_8", "constant_9"] ∧
      outcome.modifiers.inOrder =
        [("constant_1", 1), ("constant_2", 2), ("constant_3", 3), ("constant_4", 4),
          ("constant_5", 5), ("constant_6", 6), ("constant_7", 7), ("constant_8", -8),
          ("constant_9", 9), ("constant_10", 10), ("constant_11", Int64.maxValue)] := by
  constructor
  · exact (Expression.roll_inOrder.1 _ _).mpr ⟨by decide +kernel, by decide +kernel⟩
  · let expression : Expression :=
      ⟨"", [.constant 1, .operator .plus, .constant 2, .operator .plus, .constant 3,
        .operator .plus, .constant 4, .operator .plus, .constant 5, .operator .plus, .constant 6,
        .operator .plus, .constant 7, .operator .minus, .constant 8, .operator .plus, .constant 9,
        .operator .plus, .constant 10, .operator .minus, .constant Int64.minValue]⟩
    let outcome : Outcome := .ofContributions expression.written
      [.constant .plus 1, .constant .plus 2, .constant .plus 3, .constant .plus 4,
        .constant .plus 5, .constant .plus 6, .constant .plus 7, .constant .minus 8,
        .constant .plus 9, .constant .plus 10, .constant .minus Int64.minValue]
    have hrun : expression.roll.run (⟨[]⟩ : Replay) = (.ok outcome, ⟨[]⟩) := rfl
    refine ⟨expression, outcome, by decide +kernel, hrun, by decide +kernel, ?_⟩
    exact ((Expression.roll_inOrder.2 hrun).2.2 (by decide)).trans (by decide +kernel)

end Dicebox
