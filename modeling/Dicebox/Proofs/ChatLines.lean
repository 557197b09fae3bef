import Dicebox.Proofs.Accounts
import Dicebox.Proofs.LongestMatch
import Dicebox.Proofs.Storing

/-!
# What a line of chat shows

The output of a roll is one text: the notation, the values that count in brackets, the sum of the
constants in parentheses, and the total. This module takes the text apart again. Two results with
the same output have the same notation, the same values, the same constants and the same total; and
so have two results with the same message, which is the notation once more in front of the output.

Each part of the text ends with a character that it cannot hold itself, so the parts are told apart
from left to right: a colon ends the notation, a bracket the values, a parenthesis the constants.
Only the notation is written by somebody else. It holds no colon, because accepted notation is made
of tokens and blanks, and these have few characters.

## Main definitions

* `notationChars` — the characters of notation.
* `Outcome.SameLine` — outcomes that agree in what a line shows.
* `Outcome.Legible` — an outcome with an output that can be taken apart.

## Main results

* `mem_notationChars_of_parse` — accepted notation has no other characters.
* `eq_and_eq_of_append_cons` — a text that is closed by a character it does not have is told apart.
* `Outcome.shownRolls_injective` — the values are told by how they are shown.
* `Outcome.render_inj` — the parts of an output are told by it.
* `rollNotation_line_eq_iff` — lines are equal exactly when what they show is.
-/

namespace Dicebox

/-! ### The characters of notation -/

/-- The characters of notation: digits, letters in either case, signs and blanks. -/
def notationChars : List Char :=
  ['0', '1', '2', '3', '4', '5', '6', '7', '8', '9', 'd', 'D', 'k', 'K', 'h', 'H', 'l', 'L', 'r',
    'R', '%', '!', '+', '-', ' ', '\t', '\r', '\n']

/-- The code points of digits. -/
theorem toNat_of_isDigit {c : Char} (h : c.isDigit) : 48 ≤ c.toNat ∧ c.toNat ≤ 57 := by
  simp only [Char.isDigit, Bool.and_eq_true, decide_eq_true_eq, ge_iff_le,
    UInt32.le_iff_toNat_le] at h
  exact h

/-- Digits are characters of notation. -/
theorem mem_notationChars_of_isDigit {c : Char} (h : c.isDigit) : c ∈ notationChars := by
  have hdigits : ∀ n < 58, 48 ≤ n → Char.ofNat n ∈ notationChars := by decide
  obtain ⟨hlow, hhigh⟩ := toNat_of_isDigit h
  rw [← Char.ofNat_toNat c]
  exact hdigits c.toNat (Nat.lt_succ_of_le hhigh) hlow

/-- The words of a pattern have only characters of notation. -/
theorem mem_notationChars_of_mem_sections {kind : TokenKind} {pattern : List (List Char)}
    (h : kind.pattern? = some pattern) :
    ∀ word ∈ pattern.sections, word.all notationChars.contains := by
  cases kind <;> cases h <;> decide

/-- The words that make a token have only characters of notation. -/
theorem TokenKind.Matches.mem_notationChars {kind : TokenKind} {word : List Char}
    (h : kind.Matches word) : ∀ c ∈ word, c ∈ notationChars := by
  cases h with
  | digits _ hdigits => exact fun c hc => mem_notationChars_of_isDigit (hdigits c hc)
  | letters hpattern hword =>
      have hall := mem_notationChars_of_mem_sections hpattern word (List.mem_sections.mpr hword)
      exact fun c hc => List.contains_iff_mem.mp (List.all_eq_true.mp hall c hc)

/-- Accepted notation has no other characters: it is made of known tokens and blanks. -/
theorem mem_notationChars_of_parse {limits : Limits} {text : String} {expression : Expression}
    (h : parse limits text = .ok expression) : ∀ c ∈ text.toList, c ∈ notationChars := by
  have hknown := (parse_eq_ok_iff.mp h).2.kind_ne_unknown
  intro c hc
  rw [← flatMap_text_lexemes text.toList] at hc
  obtain ⟨piece, hpiece, hc⟩ := List.mem_flatMap.mp hc
  cases piece with
  | spacing blank =>
      obtain rfl : c = blank := List.mem_singleton.mp hc
      have hspacing : isSpacing c = true := wellMade_of_mem_lexemes _ _ hpiece
      simp only [isSpacing, Bool.or_eq_true, beq_iff_eq] at hspacing
      rcases hspacing with ((rfl | rfl) | rfl) | rfl <;> decide
  | token kind word =>
      have hsymbol : ⟨kind, if kind = .integer then decimal word else 0⟩ ∈ symbols text.toList := by
        rw [symbols_eq_filterMap]
        exact List.mem_filterMap.mpr ⟨_, hpiece, rfl⟩
      exact (matches_of_mem_lexemes hpiece (hknown _ hsymbol)).mem_notationChars c hc

/-! ### Fields -/

/-- Texts that are closed by a character that neither of them has are told apart, and so is what
follows them. -/
theorem eq_and_eq_of_append_cons {α : Type} {c : α} {front front' back back' : List α}
    (h : c ∉ front) (h' : c ∉ front') (heq : front ++ c :: back = front' ++ c :: back') :
    front = front' ∧ back = back' := by
  induction front generalizing front' with
  | nil =>
      cases front' with
      | nil => exact ⟨rfl, (List.cons.inj heq).2⟩
      | cons d front' => exact absurd ((List.cons.inj heq).1 ▸ List.mem_cons_self) h'
  | cons d front ih =>
      cases front' with
      | nil => exact absurd ((List.cons.inj heq).1 ▸ List.mem_cons_self) h
      | cons d' front' =>
          obtain ⟨rfl, hmore⟩ := List.cons.inj heq
          obtain ⟨rfl, rfl⟩ :=
            ih (List.not_mem_of_not_mem_cons h) (List.not_mem_of_not_mem_cons h') hmore
          exact ⟨rfl, rfl⟩

/-- Words without a comma, none of which is empty, are told by their list. -/
theorem intercalate_inj {words words' : List (List Char)}
    (h : ∀ word ∈ words, word ≠ [] ∧ ',' ∉ word) (h' : ∀ word ∈ words', word ≠ [] ∧ ',' ∉ word)
    (heq : [',', ' '].intercalate words = [',', ' '].intercalate words') : words = words' := by
  have hnil {word : List Char} {words : List (List Char)} (hne : word ≠ []) :
      [',', ' '].intercalate (word :: words) ≠ [] := by
    cases words with
    | nil => rwa [List.intercalate_singleton]
    | cons next words =>
        rw [List.intercalate_cons_cons, List.append_assoc]
        exact List.append_ne_nil_of_left_ne_nil hne _
  have hcomma (word next : List Char) (words : List (List Char)) :
      [',', ' '].intercalate (word :: next :: words) =
        word ++ ',' :: ' ' :: [',', ' '].intercalate (next :: words) := by
    rw [List.intercalate_cons_cons, List.append_assoc]
    rfl
  induction words generalizing words' with
  | nil =>
      cases words' with
      | nil => rfl
      | cons word' words' => exact absurd heq.symm (hnil (h' word' List.mem_cons_self).1)
  | cons word words ih =>
      obtain ⟨⟨hne, hword⟩, hmore⟩ := List.forall_mem_cons.mp h
      cases words' with
      | nil => exact absurd heq (hnil hne)
      | cons word' words' =>
          obtain ⟨⟨-, hword'⟩, hmore'⟩ := List.forall_mem_cons.mp h'
          rcases words with - | ⟨next, words⟩ <;> rcases words' with - | ⟨next', words'⟩
          · rw [List.intercalate_singleton, List.intercalate_singleton] at heq
            rw [heq]
          · rw [List.intercalate_singleton, hcomma] at heq
            exact absurd (heq ▸ List.mem_append_cons_self) hword
          · rw [List.intercalate_singleton, hcomma] at heq
            exact absurd (heq ▸ List.mem_append_cons_self) hword'
          · rw [hcomma, hcomma] at heq
            obtain ⟨rfl, hrest⟩ := eq_and_eq_of_append_cons hword hword' heq
            rw [ih hmore hmore' (List.cons.inj hrest).2]

/-- Of joined words, every character is in one of them or between them. -/
theorem mem_intercalate {c : Char} {between : List Char} {words : List (List Char)}
    (h : c ∈ between.intercalate words) : c ∈ between ∨ ∃ word ∈ words, c ∈ word := by
  induction words with
  | nil => cases h
  | cons word words ih =>
      cases words with
      | nil =>
          rw [List.intercalate_singleton] at h
          exact .inr ⟨word, List.mem_cons_self, h⟩
      | cons next words =>
          rw [List.intercalate_cons_cons, List.mem_append, List.mem_append] at h
          rcases h with (hc | hc) | hc
          · exact .inr ⟨word, List.mem_cons_self, hc⟩
          · exact .inl hc
          · exact (ih hc).imp_right fun ⟨other, hother, hc⟩ =>
              ⟨other, List.mem_cons_of_mem _ hother, hc⟩

/-! ### The parts of a line -/

/-- An integer is told by its decimal, from which it is read back. -/
theorem repr_int_injective : Function.Injective Int.repr := by
  intro m n h
  have hread := Json.readNumber_repr m Json.endsValue_nil
  rw [h, Json.readNumber_repr n Json.endsValue_nil] at hread
  cases hread
  rfl

/-- A number is told by its decimal, which is that of an integer. -/
theorem repr_nat_injective : Function.Injective Nat.repr :=
  fun _ _ h => Int.ofNat.inj (repr_int_injective h)

/-- A number is shown with digits alone. -/
theorem isDigit_of_mem_repr {n : Nat} {c : Char} (h : c ∈ n.repr.toList) : c.isDigit :=
  Json.isDigit_of_mem_toDigits (Nat.toList_repr ▸ h)

namespace Text

/-- An integer with its sign is shown with the sign and digits. -/
theorem toList_signed (n : Int) :
    (signed n).toList = (if n < 0 then '-' else '+') :: n.natAbs.repr.toList := by
  rw [signed]
  split <;> simp

/-- An integer is told by how it is shown with its sign. -/
theorem signed_injective : Function.Injective signed := by
  intro m n h
  have hlist := congrArg String.toList h
  rw [toList_signed, toList_signed] at hlist
  obtain ⟨hsign, hdigits⟩ := List.cons.inj hlist
  have habs : m.natAbs = n.natAbs := repr_nat_injective (String.toList_inj.mp hdigits)
  split at hsign <;> split at hsign <;> first | omega | cases hsign

end Text

namespace Outcome

/-- The values that count, as they are shown. -/
def shownRolls (rolls : List UInt32) : List Char :=
  [',', ' '].intercalate (rolls.map fun value => value.toNat.repr.toList)

/-- The values that count are told by how they are shown. -/
theorem shownRolls_injective : Function.Injective shownRolls := by
  intro rolls rolls' heq
  have hwords (rolls : List UInt32) :
      ∀ word ∈ rolls.map (fun value => value.toNat.repr.toList), word ≠ [] ∧ ',' ∉ word := by
    intro word hword
    obtain ⟨value, -, rfl⟩ := List.mem_map.mp hword
    refine ⟨?_, fun hcomma => absurd (isDigit_of_mem_repr hcomma) (by decide)⟩
    rw [Nat.toList_repr]
    exact Nat.toDigits_ne_nil
  have hinj : Function.Injective fun value : UInt32 => value.toNat.repr.toList := by
    intro a b hab
    exact UInt32.toNat_inj.mp (repr_nat_injective (String.toList_inj.mp hab))
  exact List.map_injective_iff.mpr hinj (intercalate_inj (hwords rolls) (hwords rolls') heq)

/-- The values that count are shown with digits, commas and blanks. -/
theorem mem_shownRolls {rolls : List UInt32} {c : Char} (h : c ∈ shownRolls rolls) :
    c = ',' ∨ c = ' ' ∨ c.isDigit := by
  rcases mem_intercalate h with hc | ⟨word, hword, hc⟩
  · simpa [or_assoc] using Or.inl hc
  · obtain ⟨value, -, rfl⟩ := List.mem_map.mp hword
    exact .inr (.inr (isDigit_of_mem_repr hc))

/-- The characters of an output, part by part. -/
theorem toList_render (written : String) (rolls : List UInt32) (constants total : Amount) :
    (render written rolls constants total).toList =
      written.toList ++ ':' :: (" [".toList ++ (shownRolls rolls ++ ']' :: (" (".toList ++
        (constants.signedText.toList ++ ')' :: (" = ".toList ++ total.text.toList))))) := by
  rw [render]
  simp only [String.toList_append, String.toList_intercalate, List.map_map, shownRolls,
    List.append_assoc]
  rfl

/-- The parts of an output are told by it, if the notation has no colon. -/
theorem render_inj {written written' : String} {rolls rolls' : List UInt32}
    {constants constants' total total' : Amount} (h : ':' ∉ written.toList)
    (h' : ':' ∉ written'.toList)
    (heq : render written rolls constants total = render written' rolls' constants' total') :
    written = written' ∧ rolls = rolls' ∧ constants = constants' ∧ total = total' := by
  have hsign (n : Int) : ')' ∉ (Text.signed n).toList := by
    rw [Text.toList_signed, List.mem_cons]
    rintro (hc | hc)
    · split at hc <;> cases hc
    · exact absurd (isDigit_of_mem_repr hc) (by decide)
  have hrolls (rolls : List UInt32) : ']' ∉ shownRolls rolls := by
    intro hc
    rcases mem_shownRolls hc with hc | hc | hc <;> cases hc
  have hlist := congrArg String.toList heq
  rw [toList_render, toList_render] at hlist
  obtain ⟨hwritten, hlist⟩ := eq_and_eq_of_append_cons h h' hlist
  obtain ⟨hshown, hlist⟩ :=
    eq_and_eq_of_append_cons (hrolls rolls) (hrolls rolls') (List.append_cancel_left hlist)
  obtain ⟨hconstants, hlist⟩ :=
    eq_and_eq_of_append_cons (hsign _) (hsign _) (List.append_cancel_left hlist)
  refine ⟨String.toList_inj.mp hwritten, shownRolls_injective hshown, ?_, ?_⟩
  · exact Int64.toInt_inj.mp (Text.signed_injective (String.toList_inj.mp hconstants))
  · refine Int64.toInt_inj.mp (repr_int_injective (String.toList_inj.mp ?_))
    exact List.append_cancel_left hlist

/-! ### Lines -/

/-- Two outcomes agree in the four things that a line of chat shows. -/
structure SameLine (outcome outcome' : Outcome) : Prop where
  written_eq : outcome.written = outcome'.written
  rolls_eq : outcome.rolls = outcome'.rolls
  constants_eq : outcome.modifiers.total = outcome'.modifiers.total
  total_eq : outcome.total = outcome'.total

/-- The output of an outcome shows what the outcome holds, and its notation has no colon. -/
structure Legible (outcome : Outcome) : Prop where
  output_eq : outcome.output =
    render outcome.written outcome.rolls outcome.modifiers.total outcome.total
  colon_notMem : ':' ∉ outcome.written.toList

/-- Legible outcomes have one output exactly when they agree in what it shows. -/
theorem Legible.output_eq_iff {outcome outcome' : Outcome} (h : outcome.Legible)
    (h' : outcome'.Legible) :
    outcome.output = outcome'.output ↔ outcome.SameLine outcome' := by
  rw [h.output_eq, h'.output_eq]
  constructor
  · intro heq
    obtain ⟨hwritten, hrolls, hconstants, htotal⟩ := render_inj h.colon_notMem h'.colon_notMem heq
    exact ⟨hwritten, hrolls, hconstants, htotal⟩
  · rintro ⟨hwritten, hrolls, hconstants, htotal⟩
    rw [hwritten, hrolls, hconstants, htotal]

/-- Legible outcomes have one message exactly when they agree in what it shows. -/
theorem Legible.message_eq_iff {outcome outcome' : Outcome} (h : outcome.Legible)
    (h' : outcome'.Legible) :
    outcome.message = outcome'.message ↔ outcome.SameLine outcome' := by
  rw [← h.output_eq_iff h']
  have hmessage (outcome : Outcome) : outcome.message.toList =
      "Rolled ".toList ++
        (outcome.written.toList ++ ':' :: (" ".toList ++ outcome.output.toList)) := by
    rw [message, String.toList_append, String.toList_append, String.toList_append,
      List.append_assoc, List.append_assoc]
    rfl
  constructor
  · intro heq
    have hlist := congrArg String.toList heq
    rw [hmessage, hmessage] at hlist
    obtain ⟨-, houtput⟩ := eq_and_eq_of_append_cons h.colon_notMem h'.colon_notMem
      (List.append_cancel_left hlist)
    exact String.toList_inj.mp (List.append_cancel_left houtput)
  · intro heq
    rw [message, message, ((h.output_eq_iff h').mp heq).written_eq, heq]

end Outcome

/-- What notation rolls is legible, with the notation that was written. -/
theorem legible_of_run {build : Build} {σ : Type} [DieSource σ] {limits : Limits}
    {written : String} {rolling : Rolling Outcome} {source left : σ} {outcome : Outcome}
    (h : rollNotation limits written build = .ok rolling)
    (hrun : rolling.run source = (.ok outcome, left)) :
    outcome.written = written ∧ (∀ c ∈ outcome.written.toList, c ∈ notationChars) ∧
      outcome.Legible := by
  obtain ⟨expression, hparse, rfl⟩ := rollNotation_eq_ok_iff.mp h
  obtain ⟨-, rolled, -, rfl⟩ := Expression.exists_contributes_of_run hrun
  have hwritten : expression.written = written := (parse_eq_ok_iff.mp hparse).1
  have hchars : ∀ c ∈ expression.written.toList, c ∈ notationChars :=
    hwritten ▸ mem_notationChars_of_parse hparse
  exact ⟨hwritten, hchars, rfl, fun hcolon => absurd (hchars ':' hcolon) (by decide)⟩

/-- **What a line of chat shows.** Take any two results, of any notations and sources. Their outputs
are equal exactly when the notations, the values that count, the sums of the constants and the
totals are, and so are their messages. For accepted notation has only the characters of notation,
and cannot imitate the rest of the line. -/
theorem rollNotation_line_eq_iff {build build' : Build} {σ σ' : Type} [DieSource σ] [DieSource σ']
    {limits limits' : Limits} {written written' : String} {rolling rolling' : Rolling Outcome}
    {source left : σ} {source' left' : σ'} {outcome outcome' : Outcome}
    (h : rollNotation limits written build = .ok rolling)
    (hrun : rolling.run source = (.ok outcome, left))
    (h' : rollNotation limits' written' build' = .ok rolling')
    (hrun' : rolling'.run source' = (.ok outcome', left')) :
    (∀ c ∈ written.toList, c ∈ notationChars) ∧
    (outcome.output = outcome'.output ↔ outcome.SameLine outcome') ∧
    (outcome.message = outcome'.message ↔ outcome.SameLine outcome') := by
  obtain ⟨hwritten, hchars, hlegible⟩ := legible_of_run h hrun
  obtain ⟨-, -, hlegible'⟩ := legible_of_run h' hrun'
  exact ⟨hwritten ▸ hchars, hlegible.output_eq_iff hlegible', hlegible.message_eq_iff hlegible'⟩

/-- One notation with a reroll, from two sources: one line, although the dice differ. -/
theorem rollNotation_line_eq_iff_of_rerolled :
    ∃ (rolling : Rolling Outcome) (outcome outcome' : Outcome),
      rollNotation {} "1d6r2 + 1" = .ok rolling ∧
      rolling.run (⟨[1, 4]⟩ : Replay) = (.ok outcome, ⟨[]⟩) ∧
      rolling.run (⟨4, 1⟩ : Stepper) = (.ok outcome', ⟨5, 1⟩) ∧
      outcome.message = "Rolled 1d6r2 + 1: 1d6r2 + 1: [4] (+1) = 5" ∧
      outcome.message = outcome'.message ∧ outcome.dice ≠ outcome'.dice ∧
      outcome.SameLine outcome' := by
  let expression : Expression :=
    ⟨"1d6r2 + 1", [.dice ⟨1, 6, [.reroll 2], by decide⟩, .operator .plus, .constant 1]⟩
  let outcome (dice : List Die) : Outcome :=
    { written := "1d6r2 + 1", rolls := [4], modifiers := .ofConstants [1], total := 5,
      output := "1d6r2 + 1: [4] (+1) = 5", dice }
  have hparse : parse {} "1d6r2 + 1" = .ok expression := by decide +kernel
  have hnotated : rollNotation {} "1d6r2 + 1" = .ok expression.roll :=
    rollNotation_eq_ok_iff.mpr ⟨expression, hparse, rfl⟩
  have hrun : expression.roll.run (⟨[1, 4]⟩ : Replay) =
      (.ok (outcome [⟨6, 1, false⟩, ⟨6, 4, true⟩]), ⟨[]⟩) := by decide +kernel
  have hrun' : expression.roll.run (⟨4, 1⟩ : Stepper) =
      (.ok (outcome [⟨6, 4, true⟩]), ⟨5, 1⟩) := by decide +kernel
  obtain ⟨-, -, hmessage⟩ := rollNotation_line_eq_iff hnotated hrun hnotated hrun'
  exact ⟨expression.roll, _, _, hnotated, hrun, hrun', by decide +kernel, rfl, by decide,
    hmessage.mp rfl⟩

end Dicebox
