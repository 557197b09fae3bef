import Dicebox.Proofs.Grammar

/-!
# Symbols of a text, piece by piece

A text is cut into lexemes from its right end, and a character joins the lexeme right behind
it or stands alone. So the symbols of a text are those of a piece in front of it and those of
the rest, as long as nothing joins across the seam. Two kinds of piece are needed to write
notation: digits, which join no further when no digit follows them, and the letters and signs
of the notation, which join at most a letter.

## Main definitions

* `NoDigitHead` — a text that does not go on with a digit.
* `Spells` — a piece of text has the same symbols whatever follows it, unless it is a digit.

## Main results

* `symbols_eq_filterMap` — the symbols of a text are those of its lexemes.
* `lexemes_append` — a text falls apart where nothing joins.
* `Spells.append` — pieces may be put together where no digit follows.
* `spells_repr` — a number in decimal is one symbol.
* `spells_letter_repr`, `spells_letters_repr` — letters and a number are two symbols.
-/

namespace Dicebox

/-! ### Letters -/

/-- A character is its own lower case, unless it is one of the capital letters, which have the codes
from 65 to 90. -/
theorem toLower_eq_self_or (c : Char) : c.toLower = c ∨ ∃ n < 91, 65 ≤ n ∧ c = .ofNat n := by
  by_cases h : c.val ≥ 'A'.val ∧ c.val ≤ 'Z'.val
  · have hlow : 65 ≤ c.toNat := UInt32.le_iff_toNat_le.mp h.1
    have hhigh : c.toNat ≤ 90 := UInt32.le_iff_toNat_le.mp h.2
    exact .inr ⟨c.toNat, Nat.lt_succ_of_le hhigh, hlow, c.ofNat_toNat.symm⟩
  · exact .inl (dif_neg h)

/-! ### Lexemes -/

/-- The symbol of a lexeme, if it is a token. -/
def Lexeme.symbol? : Lexeme → Option Symbol
  | spacing _ => none
  | token kind text => some ⟨kind, if kind = .integer then decimal text else 0⟩

/-- The symbols of a text are those of its lexemes: where a token stands plays no part. -/
theorem symbols_eq_filterMap (text : List Char) :
    symbols text = (lexemes text).filterMap Lexeme.symbol? := by
  have hfrom : ∀ (pieces : List Lexeme) (start : Nat),
      (Token.ofLexemes start pieces).map (fun token =>
        (⟨token.kind, if token.kind = .integer then decimal token.text else 0⟩ : Symbol)) =
        pieces.filterMap Lexeme.symbol? := by
    intro pieces
    induction pieces with
    | nil => exact fun _ => rfl
    | cons next more ih =>
        intro start
        cases next with
        | spacing c => exact ih (start + 1)
        | token kind text => exact congrArg (_ :: ·) (ih (start + text.length))
  exact hfrom (lexemes text) 0

/-- A character does not join the next lexeme exactly when it is no digit in front of a number
and makes no pair with a letter. -/
theorem join?_eq_none_iff {c : Char} {next : Lexeme} :
    Lexeme.join? c next = none ↔
      (∀ digits, next = .token .integer digits → c.isDigit = false) ∧
        ∀ letter, next = .token .unknown [letter] → TokenKind.ofPair c letter = none := by
  rw [Lexeme.join?.eq_def]
  split
  · simp
  · simp
  · next hdigits hletter =>
      refine iff_of_true rfl ⟨fun digits h => ?_, fun letter h => ?_⟩
      · exact absurd h (hdigits digits)
      · exact absurd h (hletter letter)

/-- A character that is no digit and makes no pair joins nothing. -/
theorem join?_eq_none_of_ofPair {c : Char} (hdigit : c.isDigit = false)
    (hpair : ∀ letter, TokenKind.ofPair c letter = none) (next : Lexeme) :
    Lexeme.join? c next = none :=
  join?_eq_none_iff.mpr ⟨fun _ _ => hdigit, fun letter _ => hpair letter⟩

/-- A character in front of a text is attached to the lexemes of the text. -/
theorem lexemes_cons (c : Char) (text : List Char) :
    lexemes (c :: text) = Lexeme.attach c (lexemes text) :=
  rfl

/-- A blank character makes no pair. -/
theorem ofPair_eq_none_of_isSpacing {c : Char} (h : isSpacing c) (letter : Char) :
    TokenKind.ofPair c letter = none := by
  simp only [isSpacing, Bool.or_eq_true, beq_iff_eq] at h
  rcases h with ((rfl | rfl) | rfl) | rfl <;> rfl

/-- A blank character joins nothing. -/
theorem join?_eq_none_of_isSpacing {c : Char} (h : isSpacing c) (next : Lexeme) :
    Lexeme.join? c next = none := by
  refine join?_eq_none_of_ofPair ?_ (ofPair_eq_none_of_isSpacing h) next
  simp only [isSpacing, Bool.or_eq_true, beq_iff_eq] at h
  rcases h with ((rfl | rfl) | rfl) | rfl <;> rfl

/-- A character that does not join the first of some lexemes stands before them. -/
theorem Lexeme.attach_eq_cons {c : Char} {more : List Lexeme}
    (h : ∀ next ∈ more.head?, join? c next = none) : attach c more = single c :: more := by
  cases more with
  | nil => rfl
  | cons next more => rw [attach, h next rfl]

/-- A character that joins nothing stands alone. -/
theorem lexemes_cons_of_join?_eq_none {c : Char} {text : List Char}
    (h : ∀ next ∈ (lexemes text).head?, Lexeme.join? c next = none) :
    lexemes (c :: text) = Lexeme.single c :: lexemes text :=
  Lexeme.attach_eq_cons h

/-- Blank characters stand alone in front of a text. -/
theorem lexemes_blanks_append {blanks : List Char} (h : blanks.all isSpacing) (text : List Char) :
    lexemes (blanks ++ text) = blanks.map .spacing ++ lexemes text := by
  induction blanks with
  | nil => rfl
  | cons c blanks ih =>
      rw [List.all_cons, Bool.and_eq_true] at h
      have hsingle : Lexeme.single c = .spacing c := if_pos h.1
      rw [List.cons_append, lexemes_cons_of_join?_eq_none, ih h.2, hsingle]
      · rfl
      · exact fun next _ => join?_eq_none_of_isSpacing h.1 next

/-- A character that joins the next lexeme makes one lexeme with it. -/
theorem lexemes_cons_of_join?_eq_some {c : Char} {text : List Char} {next joined : Lexeme}
    {more : List Lexeme} (htext : lexemes text = next :: more)
    (h : Lexeme.join? c next = some joined) : lexemes (c :: text) = joined :: more := by
  rw [lexemes_cons, htext, Lexeme.attach, h]

/-- Lexemes with others behind them take up a character as they do alone. -/
theorem Lexeme.attach_append {c : Char} {front more : List Lexeme}
    (h : ∀ next ∈ more.head?, join? c next = none) :
    attach c (front ++ more) = attach c front ++ more := by
  cases front with
  | nil => exact attach_eq_cons h
  | cons first front =>
      rw [List.cons_append, attach, attach]
      cases join? c first <;> rfl

/-- A text falls apart in front of a lexeme that no character joins. -/
theorem lexemes_append {text rest : List Char}
    (h : ∀ c, ∀ next ∈ (lexemes rest).head?, Lexeme.join? c next = none) :
    lexemes (text ++ rest) = lexemes text ++ lexemes rest := by
  induction text with
  | nil => rfl
  | cons c text ih =>
      rw [List.cons_append, lexemes_cons, ih, Lexeme.attach_append (h c)]
      rfl

/-- The kind of a character that is no digit is not that of a number. -/
theorem ofChar_ne_integer {c : Char} (h : c.isDigit = false) :
    TokenKind.ofChar c ≠ .integer := by
  rw [TokenKind.ofChar, h]
  simp only [Bool.false_eq_true, if_false]
  split <;> exact nofun

/-- Two letters never make a number. -/
theorem ofPair_ne_integer {first second : Char} {kind : TokenKind}
    (h : TokenKind.ofPair first second = some kind) : kind ≠ .integer := by
  rw [TokenKind.ofPair] at h
  split at h <;> cases h <;> exact nofun

/-! ### Digits -/

/-- A text does not go on with a digit. -/
def NoDigitHead (text : List Char) : Prop :=
  ∀ c ∈ text.head?, c.isDigit = false

theorem noDigitHead_cons {c : Char} (h : c.isDigit = false) (text : List Char) :
    NoDigitHead (c :: text) := by
  intro d hd
  obtain rfl := Option.some.inj hd
  exact h

/-- A character that is no digit begins no number. -/
theorem head?_lexemes_ne_integer {c : Char} (h : c.isDigit = false) (text digits : List Char) :
    ∀ next ∈ (lexemes (c :: text)).head?, next ≠ .token .integer digits := by
  have hsingle : Lexeme.single c ≠ .token .integer digits := by
    rw [Lexeme.single]
    split
    · exact nofun
    · exact fun heq => ofChar_ne_integer h (Lexeme.token.inj heq).1
  intro next hnext
  rw [lexemes_cons, Lexeme.attach.eq_def] at hnext
  split at hnext
  · exact Option.some.inj hnext ▸ hsingle
  · next behind more _ =>
      split at hnext
      · next joined hjoined =>
          obtain rfl := Option.some.inj hnext
          rw [Lexeme.join?.eq_def] at hjoined
          split at hjoined
          · rw [h] at hjoined
            cases hjoined
          · obtain ⟨kind, hkind, rfl⟩ := Option.map_eq_some_iff.mp hjoined
            exact fun heq => ofPair_ne_integer hkind (Lexeme.token.inj heq).1
          · cases hjoined
      · exact Option.some.inj hnext ▸ hsingle

/-- A digit is not blank. -/
theorem isSpacing_eq_false_of_isDigit {c : Char} (h : c.isDigit) : isSpacing c = false := by
  rw [Bool.eq_false_iff]
  intro hspacing
  simp only [isSpacing, Bool.or_eq_true, beq_iff_eq] at hspacing
  rcases hspacing with ((rfl | rfl) | rfl) | rfl <;> cases h

/-- A digit is a number alone. -/
theorem single_eq_integer {c : Char} (h : c.isDigit) :
    Lexeme.single c = .token .integer [c] := by
  rw [Lexeme.single, isSpacing_eq_false_of_isDigit h, TokenKind.ofChar, h]
  rfl

/-- A digit has no case. -/
theorem toLower_of_isDigit {c : Char} (h : c.isDigit) : c.toLower = c := by
  refine dif_neg fun hupper => ?_
  simp only [Char.isDigit, Bool.and_eq_true, decide_eq_true_eq, UInt32.le_iff_toNat_le] at h
  have hlower := UInt32.le_iff_toNat_le.mp hupper.1
  have : '9'.val.toNat < 'A'.val.toNat := by decide
  omega

/-- A digit makes no pair with a letter. -/
theorem ofPair_eq_none_of_isDigit {c : Char} (h : c.isDigit) (letter : Char) :
    TokenKind.ofPair c letter = none := by
  rw [TokenKind.ofPair.eq_def, toLower_of_isDigit h]
  split
  · cases h
  · cases h
  · cases h
  · cases h
  · rfl

/-- Digits are one number, if no digit follows them. -/
theorem lexemes_digits {digits rest : List Char} (hne : digits ≠ [])
    (hdigits : ∀ c ∈ digits, c.isDigit) (hrest : NoDigitHead rest) :
    lexemes (digits ++ rest) = .token .integer digits :: lexemes rest := by
  induction digits with
  | nil => exact absurd rfl hne
  | cons c digits ih =>
      have hc : c.isDigit := hdigits c List.mem_cons_self
      cases digits with
      | nil =>
          rw [← single_eq_integer hc]
          refine lexemes_cons_of_join?_eq_none fun next hnext => join?_eq_none_iff.mpr ⟨?_, ?_⟩
          · rintro digits rfl
            cases rest with
            | nil => cases hnext
            | cons d rest =>
              exact absurd rfl (head?_lexemes_ne_integer (hrest d rfl) rest digits _ hnext)
          · exact fun letter _ => ofPair_eq_none_of_isDigit hc letter
      | cons d digits =>
          have hmore := ih (List.cons_ne_nil _ _) fun c h => hdigits c (List.mem_cons_of_mem _ h)
          have hjoin : Lexeme.join? c (.token .integer (d :: digits)) =
              some (.token .integer (c :: d :: digits)) := if_pos hc
          exact lexemes_cons_of_join?_eq_some hmore hjoin

/-! ### Pieces -/

/-- A piece of text writes the same symbols whatever follows it, unless it is a digit. -/
def Spells (text : List Char) (front : List Symbol) : Prop :=
  ∀ rest, NoDigitHead rest → symbols (text ++ rest) = front ++ symbols rest

/-- Nothing spells nothing. -/
theorem spells_nil : Spells [] [] :=
  fun _ _ => rfl

/-- Pieces may be put together where no digit follows the first. -/
theorem Spells.append {text text' : List Char} {front front' : List Symbol}
    (h : Spells text front) (h' : Spells text' front')
    (hseam : ∀ rest, NoDigitHead rest → NoDigitHead (text' ++ rest)) :
    Spells (text ++ text') (front ++ front') := by
  intro rest hrest
  rw [List.append_assoc, h _ (hseam rest hrest), h' rest hrest, List.append_assoc]

/-- A piece on its own: what it spells are its symbols. -/
theorem Spells.symbols_eq {text : List Char} {front : List Symbol} (h : Spells text front) :
    symbols text = front := by
  have hend := h [] nofun
  rwa [List.append_nil, show symbols [] = [] from rfl, List.append_nil] at hend

/-- A number in decimal is one number, and no digit follows it. -/
theorem lexemes_repr (n : Nat) {rest : List Char} (hrest : NoDigitHead rest) :
    lexemes (n.repr.toList ++ rest) =
      .token .integer (Nat.toDigits 10 n) :: lexemes rest := by
  rw [Nat.toList_repr]
  exact lexemes_digits Nat.toDigits_ne_nil
    (fun c hc => Nat.isDigit_of_mem_toDigits (by decide) (by decide) hc) hrest

/-- A number in decimal spells the number. -/
theorem spells_repr (n : Nat) : Spells n.repr.toList [⟨.integer, n⟩] := by
  intro rest hrest
  rw [symbols_eq_filterMap, lexemes_repr n hrest, List.filterMap_cons, Lexeme.symbol?, if_pos rfl,
    decimal_eq_ofDigitChars, Nat.ofDigitChars_ten_toDigits, ← symbols_eq_filterMap]
  rfl

/-- A character that makes no pair, and is neither digit nor spacing, is one symbol. -/
theorem symbols_cons_of_alone {c : Char} (hdigit : c.isDigit = false)
    (hspacing : isSpacing c = false) {text : List Char}
    (h : ∀ next ∈ (lexemes text).head?, Lexeme.join? c next = none) :
    symbols (c :: text) = ⟨.ofChar c, 0⟩ :: symbols text := by
  rw [symbols_eq_filterMap, lexemes_cons_of_join?_eq_none h, Lexeme.single, hspacing,
    symbols_eq_filterMap]
  simp only [Bool.false_eq_true, if_false, List.filterMap_cons, Lexeme.symbol?,
    if_neg (ofChar_ne_integer hdigit)]

/-- A character that makes no pair at all spells one symbol in front of any piece. -/
theorem Spells.cons {c : Char} (hdigit : c.isDigit = false) (hspacing : isSpacing c = false)
    (hpair : ∀ letter, TokenKind.ofPair c letter = none) {text : List Char}
    {front : List Symbol} (h : Spells text front) :
    Spells (c :: text) (⟨.ofChar c, 0⟩ :: front) := by
  intro rest hrest
  rw [List.cons_append, symbols_cons_of_alone hdigit hspacing, h rest hrest]
  · rfl
  · exact fun next _ => join?_eq_none_of_ofPair hdigit hpair next

/-- A letter and a number spell two symbols: in front of a number the letter stands alone. -/
theorem spells_letter_repr {c : Char} (hdigit : c.isDigit = false)
    (hspacing : isSpacing c = false) (n : Nat) :
    Spells (c :: n.repr.toList) [⟨.ofChar c, 0⟩, ⟨.integer, n⟩] := by
  intro rest hrest
  rw [List.cons_append, symbols_cons_of_alone hdigit hspacing, spells_repr n rest hrest]
  · rfl
  · intro next hnext
    rw [lexemes_repr n hrest] at hnext
    obtain rfl := Option.some.inj hnext
    exact join?_eq_none_iff.mpr ⟨fun _ _ => hdigit, nofun⟩

/-- Two letters that make a pair spell one symbol in front of a number, and the number is the
second. -/
theorem spells_letters_repr {first second : Char} {kind : TokenKind}
    (hpair : TokenKind.ofPair first second = some kind) (hdigit : second.isDigit = false)
    (hsecond : Lexeme.single second = .token .unknown [second]) (n : Nat) :
    Spells (first :: second :: n.repr.toList) [⟨kind, 0⟩, ⟨.integer, n⟩] := by
  intro rest hrest
  have hinner : lexemes (second :: (n.repr.toList ++ rest)) =
      .token .unknown [second] :: lexemes (n.repr.toList ++ rest) := by
    rw [← hsecond]
    refine lexemes_cons_of_join?_eq_none fun next hnext => ?_
    rw [lexemes_repr n hrest] at hnext
    obtain rfl := Option.some.inj hnext
    exact join?_eq_none_iff.mpr ⟨fun _ _ => hdigit, nofun⟩
  have hjoin : Lexeme.join? first (.token .unknown [second]) =
      some (.token kind [first, second]) :=
    Option.map_eq_some_iff.mpr ⟨kind, hpair, rfl⟩
  have hnumber := spells_repr n rest hrest
  rw [symbols_eq_filterMap] at hnumber ⊢
  rw [List.cons_append, List.cons_append, lexemes_cons_of_join?_eq_some hinner hjoin,
    List.filterMap_cons, Lexeme.symbol?, if_neg (ofPair_ne_integer hpair), hnumber]
  rfl

end Dicebox
