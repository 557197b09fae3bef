import Mathlib.Data.List.Sections
import Dicebox.Proofs.Particulars

/-!
# The longest token at every place

A text is read from its right end, one character at a time. This module shows that the reading is
the usual one from the left: blank characters are passed over, at any other place the longest word
is taken that makes a token of some kind, and a character at which no such word begins is a token of
its own, of the unknown kind.

The usual reading is a relation, `LongestCut`, between a text and its pieces. It knows nothing of
characters that join, only of the words that make tokens, and these are given by the characters that
may stand at each of their places. The two readings are compared piece by piece: what the right end
makes of a text is its first piece, and behind it what the right end makes of the rest.

## Main definitions

* `TokenKind.Matches` — the words that make a token of a kind.
* `LongestCut` — the pieces of a text, by the longest word at every place.

## Main results

* `TokenKind.matches_iff_ofText` — a word makes tokens of one kind at most.
* `exists_append_of_lexemes_eq_cons` — behind its first lexeme a text is cut as on its own.
* `exists_token_of_matches` — the first lexeme is no shorter than any word at its place.
* `longestCut_iff` — the lexemes of a text, and they alone, are its pieces.
-/

namespace Dicebox

/-! ### Words -/

/-- A capital letter is the upper case of its lower case. -/
theorem toUpper_toLower_ofNat : ∀ n < 91, 65 ≤ n →
    (Char.ofNat n).toLower.toUpper = Char.ofNat n := by
  decide

/-- A character with a given lower case is that character or its upper case. -/
theorem eq_or_eq_toUpper_of_toLower_eq {c lower : Char} (h : c.toLower = lower) :
    c = lower ∨ c = lower.toUpper := by
  subst h
  rcases toLower_eq_self_or c with hself | ⟨n, hhigh, hlow, rfl⟩
  · exact .inl hself.symm
  · exact .inr (toUpper_toLower_ofNat n hhigh hlow).symm

namespace TokenKind

/-- The characters that may stand at each place of a token, for the kinds whose tokens have a fixed
length. -/
def pattern? : TokenKind → Option (List (List Char))
  | dice => some [['d', 'D']]
  | percent => some [['%']]
  | keep => some [['k', 'K']]
  | keepHighest => some [['k', 'K'], ['h', 'H']]
  | keepLowest => some [['k', 'K'], ['l', 'L']]
  | dropHighest => some [['d', 'D'], ['h', 'H']]
  | dropLowest => some [['d', 'D'], ['l', 'L']]
  | reroll => some [['r', 'R']]
  | explode => some [['!']]
  | plus => some [['+']]
  | minus => some [['-']]
  | integer | unknown => none

/-- The words that make a token of a kind: any number of digits, one at least, or a character of the
pattern at each of its places. No word makes a token of the unknown kind. -/
inductive Matches : TokenKind → List Char → Prop
  | digits {word : List Char} : word ≠ [] → (∀ c ∈ word, c.isDigit) → Matches integer word
  | letters {kind : TokenKind} {pattern : List (List Char)} {word : List Char} :
      kind.pattern? = some pattern → List.Forall₂ (· ∈ ·) word pattern → Matches kind word

/-- A character that is no digit and makes a token matches its pattern. -/
theorem matches_ofChar {c : Char} (hdigit : c.isDigit = false) (h : ofChar c ≠ unknown) :
    (ofChar c).Matches [c] := by
  rw [ofChar.eq_def, hdigit] at h ⊢
  simp only [Bool.false_eq_true, if_false] at h ⊢
  split at h
  case h_8 => exact absurd rfl h
  all_goals
    next hlower =>
      refine .letters rfl (.cons ?_ .nil)
      rcases eq_or_eq_toUpper_of_toLower_eq hlower with rfl | rfl <;> decide

/-- Two letters that make a pair match its pattern. -/
theorem matches_of_ofPair {first second : Char} {kind : TokenKind}
    (h : ofPair first second = some kind) : kind.Matches [first, second] := by
  rw [ofPair.eq_def] at h
  split at h
  case h_5 => cases h
  all_goals
    next hfirst hsecond =>
      cases h
      refine .letters rfl (.cons ?_ (.cons ?_ .nil))
      · rcases eq_or_eq_toUpper_of_toLower_eq hfirst with rfl | rfl <;> decide
      · rcases eq_or_eq_toUpper_of_toLower_eq hsecond with rfl | rfl <;> decide

/-- The words of a pattern are told by their characters. -/
theorem ofText_of_mem_sections {kind : TokenKind} {pattern : List (List Char)}
    (h : kind.pattern? = some pattern) :
    ∀ word ∈ pattern.sections, word ≠ [] ∧ kind ≠ unknown ∧ ofText word = kind := by
  cases kind <;> cases h <;> decide

/-- The words of a pattern hold no digit. -/
theorem any_isDigit_of_mem_sections {kind : TokenKind} {pattern : List (List Char)}
    (h : kind.pattern? = some pattern) :
    ∀ word ∈ pattern.sections, word.any Char.isDigit = false := by
  cases kind <;> cases h <;> decide

/-- A word makes tokens of one kind at most, which its characters tell. -/
theorem matches_iff_ofText {kind : TokenKind} {word : List Char} :
    kind.Matches word ↔ word ≠ [] ∧ kind ≠ unknown ∧ ofText word = kind := by
  constructor
  · intro h
    cases h with
    | digits hne hdigits => exact ⟨hne, nofun, if_pos (List.all_eq_true.mpr hdigits)⟩
    | letters hpattern hword =>
        exact ofText_of_mem_sections hpattern word (List.mem_sections.mpr hword)
  · rintro ⟨hne, hkind, rfl⟩
    rw [ofText.eq_def] at hkind ⊢
    split
    · next hdigits => exact .digits hne (List.all_eq_true.mp hdigits)
    · next hdigits =>
        rw [if_neg hdigits] at hkind
        split at hkind
        · next c =>
            simp only [List.all_cons, List.all_nil, Bool.and_true, Bool.not_eq_true] at hdigits
            exact matches_ofChar hdigits hkind
        · next first second =>
            cases hpair : ofPair first second with
            | none =>
                rw [hpair] at hkind
                exact absurd rfl hkind
            | some kind => exact matches_of_ofPair hpair
        · exact absurd rfl hkind

/-- A word that begins with a digit has nothing but digits. -/
theorem Matches.forall_isDigit {kind : TokenKind} {c : Char} {rest : List Char}
    (h : kind.Matches (c :: rest)) (hdigit : c.isDigit) : ∀ d ∈ c :: rest, d.isDigit := by
  cases h with
  | digits _ hdigits => exact hdigits
  | letters hpattern hword =>
      have hany := any_isDigit_of_mem_sections hpattern _ (List.mem_sections.mpr hword)
      rw [List.any_cons, hdigit] at hany
      cases hany

/-- A word that begins with no digit makes a token of one character or of a pair. -/
theorem Matches.eq_singleton_or_eq_pair {kind : TokenKind} {c : Char} {rest : List Char}
    (h : kind.Matches (c :: rest)) (hdigit : c.isDigit = false) :
    rest = [] ∧ ofChar c = kind ∨ ∃ letter, rest = [letter] ∧ ofPair c letter = some kind := by
  obtain ⟨-, hkind, rfl⟩ := matches_iff_ofText.mp h
  have hall : ¬ (c :: rest).all Char.isDigit := by simp [hdigit]
  rw [ofText.eq_def, if_neg hall] at hkind ⊢
  rcases rest with - | ⟨letter, - | ⟨next, more⟩⟩
  · exact .inl ⟨rfl, rfl⟩
  · refine .inr ⟨letter, rfl, ?_⟩
    cases hpair : ofPair c letter with
    | none => simp [hpair] at hkind
    | some kind => simp [hpair]
  · exact absurd rfl hkind

end TokenKind

/-! ### Pieces of a text -/

/-- The pieces of a text, by the longest word at every place. -/
inductive LongestCut : List Char → List Lexeme → Prop
  | nil : LongestCut [] []
  /-- Blank characters are passed over. -/
  | spacing {c : Char} {text : List Char} {pieces : List Lexeme} :
      isSpacing c → LongestCut text pieces → LongestCut (c :: text) (.spacing c :: pieces)
  /-- A word is taken that makes a token, and no longer one begins at its place. -/
  | token {kind : TokenKind} {word text : List Char} {pieces : List Lexeme} :
      kind.Matches word →
      (∀ (other : TokenKind) (longer : List Char), other.Matches longer →
        longer <+: word ++ text → longer.length ≤ word.length) →
      LongestCut text pieces → LongestCut (word ++ text) (.token kind word :: pieces)
  /-- Where no word begins, a character that is not blank is taken. -/
  | unknown {c : Char} {text : List Char} {pieces : List Lexeme} :
      isSpacing c = false →
      (∀ (kind : TokenKind) (word : List Char), kind.Matches word → ¬ word <+: c :: text) →
      LongestCut text pieces → LongestCut (c :: text) (.token .unknown [c] :: pieces)

/-! ### Lexemes, one by one -/

/-- Behind its first lexeme a text is cut as it is on its own. Induction on the text: a character
in front joins the first lexeme or stands before it, and leaves the others as they are. -/
theorem exists_append_of_lexemes_eq_cons {text : List Char} {first : Lexeme} {more : List Lexeme}
    (h : lexemes text = first :: more) :
    ∃ rest, text = first.text ++ rest ∧ lexemes rest = more := by
  induction text generalizing first more with
  | nil => cases h
  | cons c text ih =>
      rw [lexemes_cons] at h
      cases htext : lexemes text with
      | nil =>
          rw [htext] at h
          obtain ⟨rfl, rfl⟩ := List.cons.inj h
          exact ⟨text, by rw [Lexeme.text_single]; rfl, htext⟩
      | cons next others =>
          rw [htext, Lexeme.attach] at h
          split at h
          · next joined hjoined =>
              obtain ⟨rfl, rfl⟩ := List.cons.inj h
              obtain ⟨rest, rfl, hrest⟩ := ih htext
              exact ⟨rest, by rw [Lexeme.text_of_join?_eq_some hjoined]; rfl, hrest⟩
          · obtain ⟨rfl, rfl⟩ := List.cons.inj h
            exact ⟨text, by rw [Lexeme.text_single]; rfl, htext⟩

/-- A text with a character has a first lexeme, and behind it is cut as on its own. -/
theorem exists_lexemes_eq_cons (c : Char) (text : List Char) :
    ∃ first more rest, lexemes (c :: text) = first :: more ∧ c :: text = first.text ++ rest ∧
      lexemes rest = more := by
  cases hpieces : lexemes (c :: text) with
  | nil =>
      have htext := flatMap_text_lexemes (c :: text)
      rw [hpieces] at htext
      cases htext
  | cons first more =>
      obtain ⟨rest, htext, hrest⟩ := exists_append_of_lexemes_eq_cons hpieces
      exact ⟨first, more, rest, rfl, htext, hrest⟩

/-- On its own, a lexeme of a text is the only one. -/
theorem lexemes_text_of_mem_lexemes (text : List Char) :
    ∀ lexeme ∈ lexemes text, lexemes lexeme.text = [lexeme] := by
  refine forall_mem_lexemes (fun c => ?_) (fun {c next joined} hnext hjoined => ?_) text
  · rw [Lexeme.text_single]
    rfl
  · rw [Lexeme.text_of_join?_eq_some hjoined]
    exact lexemes_cons_of_join?_eq_some hnext hjoined

/-- A lexeme that is a token has no blank character. -/
def Lexeme.Solid : Lexeme → Prop
  | spacing _ => True
  | token _ text => ∀ c ∈ text, isSpacing c = false

/-- No token among the lexemes of a text has a blank character. -/
theorem solid_of_mem_lexemes (text : List Char) : ∀ lexeme ∈ lexemes text, lexeme.Solid := by
  refine forall_mem_lexemes (fun c => ?_) (fun {c next joined} hnext hjoined => ?_) text
  · rw [Lexeme.single]
    split
    · trivial
    · next hspacing => exact List.forall_mem_singleton.mpr (Bool.eq_false_iff.mpr hspacing)
  · have hc : isSpacing c = false := by
      rw [Bool.eq_false_iff]
      intro hspacing
      rw [join?_eq_none_of_isSpacing hspacing] at hjoined
      cases hjoined
    rw [Lexeme.join?.eq_def] at hjoined
    split at hjoined
    · split at hjoined
      · cases hjoined
        exact List.forall_mem_cons.mpr ⟨hc, hnext⟩
      · cases hjoined
    · obtain ⟨kind, -, rfl⟩ := Option.map_eq_some_iff.mp hjoined
      exact List.forall_mem_cons.mpr ⟨hc, hnext⟩
    · cases hjoined

/-! ### The longest word -/

/-- The digits at the beginning of a text are its first lexeme. -/
theorem lexemes_digits_append {digits : List Char} (hne : digits ≠ [])
    (hdigits : ∀ c ∈ digits, c.isDigit) (rest : List Char) :
    ∃ others, lexemes (digits ++ rest) =
      .token .integer (digits ++ rest.takeWhile Char.isDigit) :: others := by
  have hall : ∀ c ∈ digits ++ rest.takeWhile Char.isDigit, c.isDigit :=
    List.forall_mem_append.mpr ⟨hdigits, fun c hc => List.all_eq_true.mp List.all_takeWhile c hc⟩
  have hstop : NoDigitHead (rest.dropWhile Char.isDigit) := by
    intro c hc
    have hnot := List.head?_dropWhile_not Char.isDigit rest
    rw [Option.mem_def.mp hc] at hnot
    exact hnot
  refine ⟨lexemes (rest.dropWhile Char.isDigit), ?_⟩
  rw [← lexemes_digits (List.append_ne_nil_of_left_ne_nil hne _) hall hstop, List.append_assoc,
    List.takeWhile_append_dropWhile]

/-- The second letter of a pair joins nothing behind it, and is no token that is known. -/
theorem lexemes_cons_of_ofPair {c letter : Char} {kind : TokenKind}
    (h : TokenKind.ofPair c letter = some kind) (text : List Char) :
    lexemes (letter :: text) = .token .unknown [letter] :: lexemes text := by
  have hletter : letter = 'h' ∨ letter = 'H' ∨ letter = 'l' ∨ letter = 'L' := by
    rw [TokenKind.ofPair.eq_def] at h
    split at h
    case h_5 => cases h
    all_goals
      next hsecond =>
        rcases eq_or_eq_toUpper_of_toLower_eq hsecond with rfl | rfl <;> decide
  rcases hletter with rfl | rfl | rfl | rfl
  all_goals
    exact lexemes_cons_of_join?_eq_none fun next _ =>
      join?_eq_none_of_ofPair rfl (fun _ => rfl) next

/-- A blank character makes no token. -/
theorem ofText_of_isSpacing {c : Char} (h : isSpacing c) : TokenKind.ofText [c] = .unknown := by
  simp only [isSpacing, Bool.or_eq_true, beq_iff_eq] at h
  rcases h with ((rfl | rfl) | rfl) | rfl <;> rfl

/-- Where a character makes a token, the first lexeme is a token that is known. -/
theorem exists_token_of_singleton {c : Char} (h : TokenKind.ofText [c] ≠ .unknown)
    (rest : List Char) :
    ∃ (kind : TokenKind) (word : List Char) (more : List Lexeme),
      lexemes (c :: rest) = .token kind word :: more ∧ kind ≠ .unknown ∧ word ≠ [] := by
  obtain ⟨first, more, rest', hfirst, htext, -⟩ := exists_lexemes_eq_cons c rest
  have hmem : first ∈ lexemes (c :: rest) := hfirst ▸ List.mem_cons_self
  have hmade := wellMade_of_mem_lexemes _ first hmem
  cases first with
  | spacing d =>
      obtain ⟨rfl, -⟩ := List.cons.inj htext
      exact absurd (ofText_of_isSpacing hmade) h
  | token kind word =>
      refine ⟨kind, word, more, hfirst, ?_, hmade.1⟩
      rintro rfl
      obtain ⟨d, rfl⟩ := List.length_eq_one_iff.mp (hmade.2 rfl)
      obtain ⟨rfl, -⟩ := List.cons.inj htext
      exact h (spelled_of_mem_lexemes _ _ hmem).symm

/-- The first lexeme of a text is a token that is known and no shorter than any word at the
beginning of the text, if there is such a word. The cases are the ways to make a word: digits, one
character, and a pair. -/
theorem exists_token_of_matches {text : List Char} {kind : TokenKind} {word : List Char}
    (hmatches : kind.Matches word) (hbegins : word <+: text) :
    ∃ (other : TokenKind) (longest : List Char) (more : List Lexeme),
      lexemes text = .token other longest :: more ∧ other ≠ .unknown ∧
        word.length ≤ longest.length := by
  obtain ⟨hne, hkind, hword⟩ := TokenKind.matches_iff_ofText.mp hmatches
  obtain ⟨rest, rfl⟩ := hbegins
  cases word with
  | nil => exact absurd rfl hne
  | cons c word =>
      by_cases hdigit : c.isDigit
      · obtain ⟨others, hlexemes⟩ :=
          lexemes_digits_append hne (hmatches.forall_isDigit hdigit) rest
        refine ⟨.integer, _, others, hlexemes, nofun, ?_⟩
        rw [List.length_append]
        exact Nat.le_add_right _ _
      · rcases hmatches.eq_singleton_or_eq_pair (Bool.eq_false_iff.mpr hdigit) with
          ⟨rfl, -⟩ | ⟨letter, rfl, hpair⟩
        · obtain ⟨other, longest, more, hlexemes, hother, hlongest⟩ :=
            exists_token_of_singleton (hword ▸ hkind) rest
          exact ⟨other, longest, more, hlexemes, hother, List.length_pos_of_ne_nil hlongest⟩
        · have hjoin : Lexeme.join? c (.token .unknown [letter]) =
              some (.token kind [c, letter]) :=
            Option.map_eq_some_iff.mpr ⟨kind, hpair, rfl⟩
          have hlexemes :=
            lexemes_cons_of_join?_eq_some (lexemes_cons_of_ofPair hpair rest) hjoin
          exact ⟨kind, _, _, hlexemes, hkind, Nat.le_refl 2⟩

/-! ### The two readings -/

/-- A lexeme that is a token of a known kind is a word of this kind. -/
theorem matches_of_mem_lexemes {text word : List Char} {kind : TokenKind}
    (h : .token kind word ∈ lexemes text) (hkind : kind ≠ .unknown) : kind.Matches word :=
  TokenKind.matches_iff_ofText.mpr
    ⟨(wellMade_of_mem_lexemes text _ h).1, hkind, (spelled_of_mem_lexemes text _ h).symm⟩

/-- The lexemes of a text are its pieces. Induction on the lexemes: what is behind the first one
are the lexemes of the rest. -/
theorem longestCut_lexemes (text : List Char) : LongestCut text (lexemes text) := by
  generalize hpieces : lexemes text = pieces
  induction pieces generalizing text with
  | nil =>
      have htext := flatMap_text_lexemes text
      rw [hpieces] at htext
      exact htext ▸ .nil
  | cons first more ih =>
      obtain ⟨rest, rfl, hrest⟩ := exists_append_of_lexemes_eq_cons hpieces
      have hmem : first ∈ lexemes (first.text ++ rest) := hpieces ▸ List.mem_cons_self
      have hmade := wellMade_of_mem_lexemes _ first hmem
      have hcut := ih rest hrest
      cases first with
      | spacing c => exact .spacing hmade hcut
      | token kind word =>
          by_cases hkind : kind = .unknown
          · subst hkind
            obtain ⟨c, rfl⟩ := List.length_eq_one_iff.mp (hmade.2 rfl)
            have hsolid := solid_of_mem_lexemes _ _ hmem
            refine .unknown (hsolid c List.mem_cons_self)
              (fun kind word hmatches hbegins => ?_) hcut
            obtain ⟨other, longest, others, hlexemes, hother, -⟩ :=
              exists_token_of_matches hmatches hbegins
            cases hpieces.symm.trans hlexemes
            exact hother rfl
          · refine .token (matches_of_mem_lexemes hmem hkind)
              (fun other longer hmatches hbegins => ?_) hcut
            obtain ⟨_, longest, others, hlexemes, -, hlength⟩ :=
              exists_token_of_matches hmatches hbegins
            cases hpieces.symm.trans hlexemes
            exact hlength

/-- No other pieces are those of a text. Induction on the pieces: of two longest words at one place
neither is longer, so they are one, and the rests behind them are one too. -/
theorem LongestCut.lexemes_eq {text : List Char} {pieces : List Lexeme}
    (h : LongestCut text pieces) : lexemes text = pieces := by
  induction h with
  | nil => rfl
  | @spacing c text pieces hspacing _ ih =>
      have hblank : [c].all isSpacing := by simpa using hspacing
      rw [← ih]
      exact lexemes_blanks_append hblank text
  | @token kind word text pieces hmatches hlongest _ ih =>
      obtain ⟨other, longest, more, hlexemes, hother, hle⟩ :=
        exists_token_of_matches hmatches (List.prefix_append word text)
      obtain ⟨rest, htext, hrest⟩ := exists_append_of_lexemes_eq_cons hlexemes
      have hlongest' : other.Matches longest :=
        matches_of_mem_lexemes (hlexemes ▸ List.mem_cons_self) hother
      have hge := hlongest other longest hlongest' (htext ▸ List.prefix_append longest rest)
      obtain ⟨rfl, rfl⟩ := List.append_inj htext (Nat.le_antisymm hle hge)
      obtain rfl : other = kind := by
        rw [← (TokenKind.matches_iff_ofText.mp hlongest').2.2,
          (TokenKind.matches_iff_ofText.mp hmatches).2.2]
      rw [hlexemes, ← hrest, ih]
  | @unknown c text pieces hspacing hword _ ih =>
      obtain ⟨first, more, rest, hlexemes, htext, hrest⟩ := exists_lexemes_eq_cons c text
      have hmem : first ∈ lexemes (c :: text) := hlexemes ▸ List.mem_cons_self
      have hmade := wellMade_of_mem_lexemes _ first hmem
      rw [hlexemes]
      cases first with
      | spacing d =>
          obtain ⟨rfl, -⟩ := List.cons.inj htext
          exact absurd hmade (Bool.eq_false_iff.mp hspacing)
      | token other longest =>
          obtain rfl : other = .unknown := by
            by_contra hother
            exact hword other longest (matches_of_mem_lexemes hmem hother)
              (htext ▸ List.prefix_append longest rest)
          obtain ⟨d, rfl⟩ := List.length_eq_one_iff.mp (hmade.2 rfl)
          obtain ⟨rfl, rfl⟩ := List.cons.inj htext
          rw [← hrest, ih]

/-- **The longest token at every place.** The pieces of a text, by the longest word at every place,
are its lexemes, and these alone. -/
theorem longestCut_iff {text : List Char} {pieces : List Lexeme} :
    LongestCut text pieces ↔ lexemes text = pieces := by
  constructor
  · exact LongestCut.lexemes_eq
  · rintro rfl
    exact longestCut_lexemes text

end Dicebox
