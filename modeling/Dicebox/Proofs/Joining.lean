import Mathlib.Algebra.Order.BigOperators.Group.List
import Dicebox.Proofs.Accounts
import Dicebox.Proofs.Lexing
import Dicebox.Proofs.Numbering
import Dicebox.Proofs.Reading

/-!
# Joining notations

Two notations with a sign between them are a notation, and nothing else than what the two are on
their own goes into it. A sign joins no character on either side, so the text falls apart at the
sign into the tokens of the two. No term holds a sign, so a derivation falls apart there too. And
the roll goes through the dice of the one and then through those of the other.

The sign itself only tells how the first value behind it counts. So everything but the total and
the constants is the same for a plus and for a minus.

## Main definitions

* `Outcome.Joins` — how an outcome is made of two outcomes.

## Main results

* `writes_joined_iff` — a derivation falls apart at any sign.
* `parse_joined_eq_ok_iff` — a notation is parsed exactly when the parts at a sign are.
* `contributions_joined` — terms contribute what the parts at an operator contribute.
* `Expression.roll_joined` — the outcome of joined expressions.
* `parse_joined` — joined notations, from their texts to their outcome.
-/

namespace Dicebox

/-! ### The text -/

/-- An operator is written as one token, whatever follows it. -/
theorem lexemes_operator_append (op : Operator) :
    ∃ kind, WritesOperator kind op ∧ ∀ rest,
      lexemes (op.text.toList ++ rest) = .token kind op.text.toList :: lexemes rest := by
  have hsign {c : Char} (hdigit : c.isDigit = false)
      (hpair : ∀ letter, TokenKind.ofPair c letter = none) (rest : List Char) :
      lexemes (c :: rest) = Lexeme.single c :: lexemes rest :=
    lexemes_cons_of_join?_eq_none fun next _ => join?_eq_none_of_ofPair hdigit hpair next
  cases op with
  | plus => exact ⟨.plus, .plus, hsign rfl fun _ => rfl⟩
  | minus => exact ⟨.minus, .minus, hsign rfl fun _ => rfl⟩

/-- A text falls apart at a sign: it joins nothing behind it, and nothing in front joins it. -/
theorem symbols_joined (first second : List Char) (op : Operator) :
    ∃ kind, WritesOperator kind op ∧
      symbols (first ++ (op.text.toList ++ second)) =
        symbols first ++ ⟨kind, 0⟩ :: symbols second := by
  obtain ⟨kind, hop, hsign⟩ := lexemes_operator_append op
  have hinteger : kind ≠ .integer := by cases hop <;> exact nofun
  have hunknown : kind ≠ .unknown := by cases hop <;> exact nofun
  have hseam : ∀ c, ∀ next ∈ (lexemes (op.text.toList ++ second)).head?,
      Lexeme.join? c next = none := by
    intro c next hnext
    rw [hsign] at hnext
    obtain rfl := Option.some.inj hnext
    refine join?_eq_none_iff.mpr ⟨fun _ heq => ?_, fun _ heq => ?_⟩
    · exact absurd (Lexeme.token.inj heq).1 hinteger
    · exact absurd (Lexeme.token.inj heq).1 hunknown
  refine ⟨kind, hop, ?_⟩
  rw [symbols_eq_filterMap, lexemes_append hseam, hsign, List.filterMap_append,
    List.filterMap_cons, Lexeme.symbol?, if_neg hinteger, ← symbols_eq_filterMap,
    ← symbols_eq_filterMap]

/-! ### The terms -/

/-- A list that is cut at two elements: when the first does not occur before the second, the cuts
are one, or the first cut comes later. -/
theorem cut_eq_or_later {α : Type} {a b : α} {front front' more more' : List α}
    (h : front ++ a :: more = front' ++ b :: more') (ha : a ∉ front') :
    (front = front' ∧ a = b ∧ more = more') ∨
      ∃ between, front = front' ++ b :: between ∧ more' = between ++ a :: more := by
  rcases List.append_eq_append_iff.mp h with ⟨later, rfl, hlater⟩ | ⟨later, rfl, hlater⟩
  · cases later with
    | nil =>
        obtain ⟨rfl, rfl⟩ := List.cons.inj hlater
        exact .inl ⟨(List.append_nil front).symm, rfl, rfl⟩
    | cons first later =>
        obtain ⟨rfl, -⟩ := List.cons.inj hlater
        exact absurd (List.mem_append_right front List.mem_cons_self) ha
  · cases later with
    | nil =>
        obtain ⟨rfl, rfl⟩ := List.cons.inj hlater
        exact .inl ⟨List.append_nil front', rfl, rfl⟩
    | cons first later =>
        obtain ⟨rfl, rfl⟩ := List.cons.inj hlater
        exact .inr ⟨later, rfl, rfl⟩

/-- A kind of token is the sign of one operator. -/
theorem WritesOperator.unique {kind : TokenKind} {op op' : Operator}
    (h : WritesOperator kind op) (h' : WritesOperator kind op') : op = op' := by
  cases h <;> cases h' <;> rfl

variable {limits : Limits}

/-- An operator stands in no term. -/
theorem WritesTerm.notMem_of_writesOperator {front : List Symbol} {term : Term}
    (h : WritesTerm limits front term) {kind : TokenKind} {value : Nat} {op : Operator}
    (hop : WritesOperator kind op) : ⟨kind, value⟩ ∉ front :=
  fun hmem => h.kind_notMem _ hmem hop.kind_mem

/-- A derivation falls apart at any sign. Induction on the derivation: the sign is not in its
first term, so it is the one behind it or a later one. -/
theorem Writes.exists_of_joined {kind : TokenKind} {value : Nat} {op : Operator}
    (hop : WritesOperator kind op) {front more : List Symbol} {terms : List Term}
    (h : Writes limits (front ++ ⟨kind, value⟩ :: more) terms) :
    ∃ former latter, Writes limits front former ∧ Writes limits more latter ∧
      terms = former ++ .operator op :: latter := by
  generalize hall : front ++ ⟨kind, value⟩ :: more = all at h
  induction h generalizing front with
  | term hterm =>
      subst hall
      have hmem : (⟨kind, value⟩ : Symbol) ∈ front ++ ⟨kind, value⟩ :: more :=
        List.mem_append_right front List.mem_cons_self
      exact absurd hmem (hterm.notMem_of_writesOperator hop)
  | chain hterm hnext hmore ih =>
      rcases cut_eq_or_later hall (hterm.notMem_of_writesOperator hop) with
        ⟨rfl, heq, rfl⟩ | ⟨between, rfl, hbetween⟩
      · obtain ⟨rfl, rfl⟩ := Symbol.mk.inj heq
        obtain rfl := hop.unique hnext
        exact ⟨_, _, .term hterm, hmore, rfl⟩
      · obtain ⟨former, latter, hformer, hlatter, rfl⟩ := ih hbetween.symm
        exact ⟨_, latter, .chain hterm hnext hformer, hlatter, rfl⟩

/-- Derivations are put together with a sign. -/
theorem Writes.joined {kind : TokenKind} {op : Operator} (hop : WritesOperator kind op)
    {front more : List Symbol} {former latter : List Term} (h : Writes limits front former)
    (hmore : Writes limits more latter) (value : Nat) :
    Writes limits (front ++ ⟨kind, value⟩ :: more) (former ++ .operator op :: latter) := by
  induction h with
  | term hterm => exact .chain hterm hop hmore
  | chain hterm hnext _ ih =>
      rw [List.append_assoc]
      exact .chain hterm hnext ih

/-- Symbols with a sign among them write terms exactly when the symbols on either side do. -/
theorem writes_joined_iff {kind : TokenKind} {value : Nat} {op : Operator}
    (hop : WritesOperator kind op) {front more : List Symbol} {terms : List Term} :
    Writes limits (front ++ ⟨kind, value⟩ :: more) terms ↔
      ∃ former latter, Writes limits front former ∧ Writes limits more latter ∧
        terms = former ++ .operator op :: latter := by
  constructor
  · exact Writes.exists_of_joined hop
  · rintro ⟨former, latter, hformer, hlatter, rfl⟩
    exact hformer.joined hop hlatter value

/-- A notation is parsed exactly when the parts in front of a sign and behind it are, and then
its terms are theirs with the operator between them. -/
theorem parse_joined_eq_ok_iff {first second : String} {op : Operator} {joined : Expression} :
    parse limits (first ++ op.text ++ second) = .ok joined ↔
      joined.written = first ++ op.text ++ second ∧
        ∃ former latter, parse limits first = .ok former ∧ parse limits second = .ok latter ∧
          joined.terms = former.terms ++ .operator op :: latter.terms := by
  obtain ⟨kind, hop, hsymbols⟩ := symbols_joined first.toList second.toList op
  rw [parse_eq_ok_iff, String.toList_append, String.toList_append, List.append_assoc, hsymbols,
    writes_joined_iff hop]
  refine and_congr_right fun _ => ⟨?_, ?_⟩
  · rintro ⟨former, latter, hformer, hlatter, hterms⟩
    exact ⟨⟨first, former⟩, ⟨second, latter⟩, parse_eq_ok_iff.mpr ⟨rfl, hformer⟩,
      parse_eq_ok_iff.mpr ⟨rfl, hlatter⟩, hterms⟩
  · rintro ⟨former, latter, hformer, hlatter, hterms⟩
    exact ⟨_, _, (parse_eq_ok_iff.mp hformer).2, (parse_eq_ok_iff.mp hlatter).2, hterms⟩

/-! ### The roll -/

variable {build : Build}

/-- Well-formed lists are put together with an operator. -/
theorem WellFormed.joined {former latter : List Term} (h : WellFormed former)
    (hlatter : WellFormed latter) (op : Operator) :
    WellFormed (former ++ .operator op :: latter) := by
  induction h with
  | value hvalue hflaw => exact .chain hvalue hflaw hlatter
  | chain hvalue hflaw _ ih => exact .chain hvalue hflaw ih

/-- Terms contribute what those in front of an operator do, and then what those behind it do. -/
theorem contributions_joined (op next : Operator) (former latter : List Term) :
    contributions build op (former ++ .operator next :: latter) = do
      let rolled ← contributions build op former
      let others ← contributions build next latter
      return rolled ++ others := by
  induction former generalizing op with
  | nil => exact (Rolling.bind_done _).symm
  | cons first former ih =>
      cases first with
      | operator op => exact ih op
      | constant value =>
          rw [List.cons_append, contributions, contributions, ih]
          simp only [Rolling.bind_assoc, Rolling.pure_eq_done, Rolling.done_bind,
            List.cons_append]
      | dice group =>
          rw [List.cons_append, contributions, contributions]
          simp only [ih, Rolling.bind_assoc, Rolling.pure_eq_done, Rolling.done_bind,
            List.cons_append]

/-- The operator before terms says nothing about their dice. Induction on the terms: it is passed
on up to the first operator among them, and from there on nothing differs. -/
theorem exists_yields_contributions {op : Operator} (other : Operator) {terms : List Term}
    {draws : List Draw} {rolled : List Contribution}
    (h : (contributions build op terms).Yields draws rolled) :
    ∃ rolled', (contributions build other terms).Yields draws rolled' ∧
      rolled'.flatMap Contribution.rolled = rolled.flatMap Contribution.rolled ∧
      (other = op → rolled' = rolled) := by
  induction terms generalizing draws rolled with
  | nil => exact ⟨rolled, h, rfl, fun _ => rfl⟩
  | cons first terms ih =>
      cases first with
      | operator op => exact ⟨rolled, h, rfl, fun _ => rfl⟩
      | constant value =>
          obtain ⟨others, hmore, rfl⟩ := Rolling.yields_bind_done_iff.mp h
          obtain ⟨others', hmore', hdice, heq⟩ := ih hmore
          refine ⟨_, Rolling.yields_bind_done_iff.mpr ⟨others', hmore', rfl⟩, hdice, ?_⟩
          intro hother
          rw [heq hother, hother]
      | dice group =>
          obtain ⟨pool, front, behind, rfl, hpool, hrest⟩ := Rolling.yields_bind_iff.mp h
          obtain ⟨others, hmore, rfl⟩ := Rolling.yields_bind_done_iff.mp hrest
          obtain ⟨others', hmore', hdice, heq⟩ := ih hmore
          refine ⟨.dice other pool :: others', Rolling.yields_bind_iff.mpr ⟨pool, front, behind,
            rfl, hpool, Rolling.yields_bind_done_iff.mpr ⟨others', hmore', rfl⟩⟩, ?_, ?_⟩
          · exact congrArg (pool.dice ++ ·) hdice
          · intro hother
            rw [heq hother, hother]

/-! ### The total -/

/-- The absolute values of what operands contribute are those of the constants and of the values
that count. -/
theorem sum_natAbs_exact {terms : List Operand} {rolled : List Contribution}
    (h : List.Forall₂ Contributes terms rolled) :
    ((rolled.map Contribution.exact).map Int.natAbs).sum =
      ((terms.filterMap Operand.constant?).map Int.natAbs).sum +
        ((rolled.flatMap Contribution.keptValues).map UInt32.toNat).sum := by
  induction h with
  | nil => rfl
  | cons hfirst _ ih =>
      cases hfirst with
      | constant =>
          simp only [List.map_cons, List.sum_cons, List.filterMap_cons, Operand.constant?,
            Contribution.exact, List.flatMap_cons, Contribution.keptValues, List.nil_append, ih]
          omega
      | @dice op group draws pool =>
          simp only [List.map_cons, List.sum_cons, List.filterMap_cons, Operand.constant?,
            Contribution.exact, List.flatMap_cons, Contribution.keptValues, List.map_append,
            List.sum_append, Operator.natAbs_sign, Int.natAbs_natCast, Pool.sum_keptValues, ih]
          omega

/-- The total of contributions is the exact sum, if their absolute values add up to an amount. -/
theorem toInt_foldl_addTo_of_sum_le {rolled : List Contribution}
    (h : ((rolled.map Contribution.exact).map Int.natAbs).sum ≤ 2 ^ 63 - 1) :
    (rolled.foldl Contribution.addTo 0).toInt = (rolled.map Contribution.exact).sum := by
  refine toInt_foldl_addTo (fun block hblock => ?_) (Amount.runFits_of_sum_natAbs_le h)
  obtain ⟨contribution, hmem, hcontribution⟩ := List.mem_filterMap.mp hblock
  have hexact : contribution.exact.natAbs = keptTotal block := by
    cases contribution with
    | constant => cases hcontribution
    | dice op pool =>
        obtain rfl := Option.some.inj hcontribution
        exact op.natAbs_sign _
  rw [← hexact]
  exact Nat.le_trans (List.le_sum_of_mem (List.mem_map_of_mem (List.mem_map_of_mem hmem))) h

/-- The totals of contributions and others add up, if all their absolute values do. -/
theorem toInt_foldl_addTo_append {rolled others : List Contribution}
    (h : (((rolled ++ others).map Contribution.exact).map Int.natAbs).sum ≤ 2 ^ 63 - 1) :
    ((rolled ++ others).foldl Contribution.addTo 0).toInt =
      (rolled.foldl Contribution.addTo 0).toInt + (others.foldl Contribution.addTo 0).toInt := by
  have hsum : (((rolled ++ others).map Contribution.exact).map Int.natAbs).sum =
      ((rolled.map Contribution.exact).map Int.natAbs).sum +
        ((others.map Contribution.exact).map Int.natAbs).sum := by
    simp only [List.map_append, List.sum_append]
  rw [toInt_foldl_addTo_of_sum_le h, toInt_foldl_addTo_of_sum_le (by omega),
    toInt_foldl_addTo_of_sum_le (by omega), List.map_append, List.sum_append]

/-! ### The outcome -/

/-- How the outcome of joined expressions is made of the outcomes of the two, when `op` stands
between them and `constants` are the constants of both.

The constants are told apart by the numbers in their keys, which are 64-bit words; a table of a
program has no more entries than such a word can count. -/
structure Outcome.Joins (op : Operator) (constants : List Int) (front behind joined : Outcome) :
    Prop where
  dice_eq : joined.dice = front.dice ++ behind.dice
  rolls_eq : joined.rolls = front.rolls ++ behind.rolls
  /-- Behind a plus, the constants keep their signs. -/
  modifiers_eq : op = .plus → joined.modifiers.entries.length < UInt64.size →
    joined.modifiers.inOrder.map Prod.snd =
      front.modifiers.inOrder.map Prod.snd ++ behind.modifiers.inOrder.map Prod.snd
  /-- Behind a plus, the totals add up if the absolute values of all that is added up do. -/
  total_eq : op = .plus →
    (constants.map Int.natAbs).sum + (joined.rolls.map UInt32.toNat).sum ≤ 2 ^ 63 - 1 →
    joined.total.toInt = front.total.toInt + behind.total.toInt

/-- **The outcome of joined expressions.** When one expression is rolled and then another one, the
two with an operator between them can be rolled as well. The source is left as it was after both,
and the outcome is made of theirs. -/
theorem Expression.roll_joined {σ : Type} [DieSource σ] {former latter joined : Expression}
    {op : Operator} (hterms : joined.terms = former.terms ++ .operator op :: latter.terms)
    {source between left : σ} {front behind : Outcome}
    (hfront : (former.roll build).run source = (.ok front, between))
    (hbehind : (latter.roll build).run between = (.ok behind, left)) :
    ∃ outcome, (joined.roll build).run source = (.ok outcome, left) ∧
      Outcome.Joins op (signedConstants joined.terms) front behind outcome := by
  obtain ⟨draws, hyields, hanswers⟩ := Rolling.run_eq_ok_iff.mp hfront
  obtain ⟨hformer, rolled, hrolled, rfl⟩ := Expression.yields_roll_iff.mp hyields
  obtain ⟨draws', hyields', hanswers'⟩ := Rolling.run_eq_ok_iff.mp hbehind
  obtain ⟨hlatter, others, hothers, rfl⟩ := Expression.yields_roll_iff.mp hyields'
  obtain ⟨others', hothers', hdice, heq⟩ := exists_yields_contributions op hothers
  have hformed : WellFormed joined.terms := hterms ▸ hformer.joined hlatter op
  have hjoined : (contributions build .plus joined.terms).Yields (draws ++ draws')
      (rolled ++ others') := by
    rw [hterms, contributions_joined]
    refine Rolling.yields_bind_iff.mpr ⟨rolled, draws, draws', rfl, hrolled, ?_⟩
    exact Rolling.yields_bind_done_iff.mpr ⟨others', hothers', rfl⟩
  have hrun : (joined.roll build).Yields (draws ++ draws')
      (.ofContributions joined.written (rolled ++ others')) :=
    Expression.yields_roll_iff.mpr ⟨hformed, _, hjoined, rfl⟩
  refine ⟨_, Rolling.run_eq_ok_iff.mpr ⟨_, hrun, hanswers.append hanswers'⟩, ?_⟩
  constructor
  case dice_eq => simp only [Outcome.ofContributions, List.flatMap_append, hdice]
  case rolls_eq =>
    simp only [Outcome.ofContributions, flatMap_keptValues_eq_map, List.flatMap_append, hdice]
  case modifiers_eq =>
    intro hop hlength
    obtain rfl := heq hop
    simp only [Outcome.ofContributions, List.filterMap_append,
      Modifiers.length_entries_ofConstants, List.length_append] at hlength ⊢
    rw [Modifiers.map_snd_inOrder_ofConstants, Modifiers.map_snd_inOrder_ofConstants,
      Modifiers.map_snd_inOrder_ofConstants]
    · omega
    · omega
    · rwa [List.length_append]
  case total_eq =>
    intro hop hsum
    obtain rfl := heq hop
    refine toInt_foldl_addTo_append ?_
    rw [sum_natAbs_exact (hformed.contributes hjoined)]
    exact hsum

/-- **Joined notations.** Two texts with a sign between them are parsed exactly when each of them
is, and then the terms are those of both with the operator between them. When the first is rolled
and then the second with what is left of the source, the two joined can be rolled as well: they
leave the source as it is after both, and their outcome is made of the two outcomes. -/
theorem parse_joined (limits : Limits) (first second : String) (op : Operator) :
    ((∃ joined, parse limits (first ++ op.text ++ second) = .ok joined) ↔
      (∃ former, parse limits first = .ok former) ∧
        ∃ latter, parse limits second = .ok latter) ∧
    ∀ former latter joined, parse limits first = .ok former → parse limits second = .ok latter →
      parse limits (first ++ op.text ++ second) = .ok joined →
      joined.terms = former.terms ++ .operator op :: latter.terms ∧
      ∀ {build : Build} {σ : Type} [DieSource σ] (source between left : σ) (front behind : Outcome),
        (former.roll build).run source = (.ok front, between) →
        (latter.roll build).run between = (.ok behind, left) →
        ∃ outcome, (joined.roll build).run source = (.ok outcome, left) ∧
          Outcome.Joins op (signedConstants joined.terms) front behind outcome := by
  constructor
  · constructor
    · rintro ⟨joined, hjoined⟩
      obtain ⟨-, former, latter, hformer, hlatter, -⟩ := parse_joined_eq_ok_iff.mp hjoined
      exact ⟨⟨former, hformer⟩, ⟨latter, hlatter⟩⟩
    · rintro ⟨⟨former, hformer⟩, ⟨latter, hlatter⟩⟩
      let joined : Expression :=
        ⟨first ++ op.text ++ second, former.terms ++ .operator op :: latter.terms⟩
      exact ⟨joined, parse_joined_eq_ok_iff.mpr ⟨rfl, former, latter, hformer, hlatter, rfl⟩⟩
  · intro former latter joined hformer hlatter hjoined
    obtain ⟨-, former', latter', hformer', hlatter', hterms⟩ := parse_joined_eq_ok_iff.mp hjoined
    obtain rfl : former = former' := Except.ok.inj (hformer.symm.trans hformer')
    obtain rfl : latter = latter' := Except.ok.inj (hlatter.symm.trans hlatter')
    refine ⟨hterms, ?_⟩
    intro build σ _ source between left front behind hfront hbehind
    exact Expression.roll_joined hterms hfront hbehind

/-- Rerolled dice with a constant, and an exploding die with another one, joined with a plus and
with a minus. -/
theorem parse_joined_of_stepper :
    ∃ sum difference : Expression,
      parse {} "4d6r + 7+d8! - 3" = .ok sum ∧ parse {} "4d6r + 7-d8! - 3" = .ok difference ∧
      (∃ outcome, sum.roll.run (⟨5, 7⟩ : Stepper) = (.ok outcome, ⟨54, 7⟩) ∧
        outcome.rolls = [5, 6, 2, 3, 8, 7] ∧ outcome.modifiers.inOrder.map Prod.snd = [7, -3] ∧
        outcome.total.toInt = 23 + 12) ∧
      ∃ outcome, difference.roll.run (⟨5, 7⟩ : Stepper) = (.ok outcome, ⟨54, 7⟩) ∧
        outcome.rolls = [5, 6, 2, 3, 8, 7] := by
  let former : Expression :=
    ⟨"4d6r + 7", [.dice ⟨4, 6, [.reroll 1], by decide⟩, .operator .plus, .constant 7]⟩
  let latter : Expression :=
    ⟨"d8! - 3", [.dice ⟨1, 8, [.explode none], by decide⟩, .operator .minus, .constant 3]⟩
  let joined (op : Operator) : Expression :=
    ⟨former.written ++ op.text ++ latter.written,
      former.terms ++ .operator op :: latter.terms⟩
  let front : Outcome := .ofContributions former.written
    [.dice .plus ⟨6, [⟨6, 5, true⟩, ⟨6, 6, true⟩, ⟨6, 1, false⟩, ⟨6, 2, true⟩, ⟨6, 3, true⟩]⟩,
      .constant .plus 7]
  let behind : Outcome := .ofContributions latter.written
    [.dice .plus ⟨8, [⟨8, 8, true⟩, ⟨8, 7, true⟩]⟩, .constant .minus 3]
  let whole : Outcome := .ofContributions (joined .plus).written
    [.dice .plus ⟨6, [⟨6, 5, true⟩, ⟨6, 6, true⟩, ⟨6, 1, false⟩, ⟨6, 2, true⟩, ⟨6, 3, true⟩]⟩,
      .constant .plus 7, .dice .plus ⟨8, [⟨8, 8, true⟩, ⟨8, 7, true⟩]⟩, .constant .minus 3]
  have hformer : parse {} "4d6r + 7" = .ok former := by decide +kernel
  have hlatter : parse {} "d8! - 3" = .ok latter := by decide +kernel
  have hsum : parse {} "4d6r + 7+d8! - 3" = .ok (joined .plus) := by decide +kernel
  have hdifference : parse {} "4d6r + 7-d8! - 3" = .ok (joined .minus) := by decide +kernel
  have hfront : former.roll.run (⟨5, 7⟩ : Stepper) = (.ok front, ⟨40, 7⟩) := by decide +kernel
  have hbehind : latter.roll.run (⟨40, 7⟩ : Stepper) = (.ok behind, ⟨54, 7⟩) := by
    decide +kernel
  have hwhole : (joined .plus).roll.run (⟨5, 7⟩ : Stepper) = (.ok whole, ⟨54, 7⟩) := by
    decide +kernel
  refine ⟨joined .plus, joined .minus, hsum, hdifference, ?_, ?_⟩
  · obtain ⟨-, hrun⟩ := (parse_joined {} "4d6r + 7" "d8! - 3" .plus).2 _ _ _ hformer hlatter hsum
    obtain ⟨outcome, houtcome, hjoins⟩ := hrun _ _ _ _ _ hfront hbehind
    obtain rfl : outcome = whole :=
      Except.ok.inj (congrArg Prod.fst (houtcome.symm.trans hwhole))
    refine ⟨whole, houtcome, hjoins.rolls_eq, ?_, hjoins.total_eq rfl (by decide)⟩
    have hseven : front.modifiers.inOrder.map Prod.snd = [7] :=
      Modifiers.map_snd_inOrder_ofConstants (by decide)
    have hthree : behind.modifiers.inOrder.map Prod.snd = [-3] :=
      Modifiers.map_snd_inOrder_ofConstants (by decide)
    rw [hjoins.modifiers_eq rfl (by decide +kernel), hseven, hthree]
    rfl
  · obtain ⟨-, hrun⟩ :=
      (parse_joined {} "4d6r + 7" "d8! - 3" .minus).2 _ _ _ hformer hlatter hdifference
    obtain ⟨outcome, houtcome, hjoins⟩ := hrun _ _ _ _ _ hfront hbehind
    exact ⟨outcome, houtcome, hjoins.rolls_eq⟩

end Dicebox
