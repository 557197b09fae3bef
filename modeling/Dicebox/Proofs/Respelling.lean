import Dicebox.Proofs.Particulars

/-!
# Notation in another spelling

Blank characters between tokens and the case of letters are free. This module says what the other
spellings of a text are, and shows that a text and each of its spellings are parsed alike, in
failure as in success.

The reader sees the symbols of a text and nothing else, so it is enough that spelling leaves these
alone. Case goes through the cutting of a text as it is: the lexemes of a text in lower case are its
lexemes in lower case. Blanks do not: where a character joins the lexeme behind it there must be
none between the two, and this is a place inside a token.

## Main definitions

* `interleave` — a text with blanks at its places.
* `Respelling` — another spelling of a text.

## Main results

* `symbols_map_toLower` — case is lost on the symbols of a text.
* `lexemes_interleave` — blanks outside the lexemes stand between them.
* `parse_respelled` — another spelling is parsed as the text is.
-/

namespace Dicebox

/-! ### Spellings -/

/-- A text with blanks at its places: in front of its characters, of which the first has the given
number, and at its end. -/
def interleave (blanks : Nat → List Char) : Nat → List Char → List Char
  | i, [] => blanks i
  | i, c :: text => blanks i ++ c :: interleave blanks (i + 1) text

/-- Another spelling of a text: its characters, where letters may be in the other case, and blanks
at places that are not inside a token. A place has the number of characters before it. -/
structure Respelling (text : List Char) where
  letters : List Char
  letters_eq : letters.map Char.toLower = text.map Char.toLower
  blanks : Nat → List Char
  isSpacing_blanks : ∀ i, (blanks i).all isSpacing
  blanks_inside : ∀ token ∈ tokenize text, ∀ i,
    token.extent.start < i → i < token.extent.stop → blanks i = []

/-- The text in its other spelling. -/
def Respelling.text {text : List Char} (respelling : Respelling text) : List Char :=
  interleave respelling.blanks 0 respelling.letters

/-! ### Case -/

/-- Capital letters and their lower case are neither digits nor blank, and their lower case is its
own. -/
theorem toLower_ofNat : ∀ n < 91, 65 ≤ n →
    ((Char.ofNat n).toLower.isDigit = (Char.ofNat n).isDigit ∧
      isSpacing (Char.ofNat n).toLower = isSpacing (Char.ofNat n)) ∧
      (Char.ofNat n).toLower.toLower = (Char.ofNat n).toLower := by
  decide

/-- Case does not tell digits and blank characters from others. -/
theorem isDigit_isSpacing_toLower (c : Char) :
    c.toLower.isDigit = c.isDigit ∧ isSpacing c.toLower = isSpacing c := by
  rcases toLower_eq_self_or c with hself | ⟨n, hhigh, hlow, rfl⟩
  · rw [hself]
    exact ⟨rfl, rfl⟩
  · exact (toLower_ofNat n hhigh hlow).1

/-- A lower case is its own. -/
theorem toLower_toLower (c : Char) : c.toLower.toLower = c.toLower := by
  rcases toLower_eq_self_or c with hself | ⟨n, hhigh, hlow, rfl⟩
  · rw [hself, hself]
  · exact (toLower_ofNat n hhigh hlow).2

namespace TokenKind

/-- Case makes no other token. -/
theorem ofChar_toLower (c : Char) : ofChar c.toLower = ofChar c := by
  rw [ofChar.eq_def, ofChar.eq_def, (isDigit_isSpacing_toLower c).1, toLower_toLower]

/-- Case makes no other pair. -/
theorem ofPair_toLower (first second : Char) :
    ofPair first.toLower second.toLower = ofPair first second := by
  rw [ofPair.eq_def, ofPair.eq_def, toLower_toLower, toLower_toLower]

end TokenKind

namespace Lexeme

/-- A lexeme in lower case. -/
def lower : Lexeme → Lexeme
  | spacing c => spacing c.toLower
  | token kind text => token kind (text.map Char.toLower)

/-- A character alone, in lower case. -/
theorem single_toLower (c : Char) : single c.toLower = (single c).lower := by
  rw [single.eq_def, single.eq_def, (isDigit_isSpacing_toLower c).2, TokenKind.ofChar_toLower]
  split <;> rfl

/-- A character joins in lower case what it joins. -/
theorem join?_toLower (c : Char) (next : Lexeme) :
    join? c.toLower next.lower = (join? c next).map lower := by
  cases next with
  | spacing d => rfl
  | token kind word =>
      match kind, word with
      | .integer, digits =>
          simp only [lower, join?, (isDigit_isSpacing_toLower c).1]
          split <;> rfl
      | .unknown, [letter] =>
          simp only [lower, join?, List.map_cons, List.map_nil, TokenKind.ofPair_toLower]
          cases TokenKind.ofPair c letter <;> rfl
      | .unknown, [] => rfl
      | .unknown, _ :: _ :: _ => rfl
      | .dice, _ | .percent, _ | .keep, _ | .keepHighest, _ | .keepLowest, _ | .dropHighest, _
      | .dropLowest, _ | .reroll, _ | .explode, _ | .plus, _ | .minus, _ => rfl

/-- A character in lower case is put before lexemes in lower case. -/
theorem attach_toLower (c : Char) (pieces : List Lexeme) :
    attach c.toLower (pieces.map lower) = (attach c pieces).map lower := by
  cases pieces with
  | nil => simp only [List.map_nil, attach, single_toLower, List.map_cons]
  | cons next more =>
      simp only [List.map_cons, attach, join?_toLower, single_toLower]
      cases join? c next <;> rfl

/-- The symbol of a lexeme has no case. -/
theorem symbol?_lower {piece : Lexeme} (h : piece.Spelled) :
    piece.lower.symbol? = piece.symbol? := by
  cases piece with
  | spacing c => rfl
  | token kind word =>
      rw [lower, symbol?, symbol?]
      split
      · next hkind =>
          have hdigits : ∀ c ∈ word, c.toLower = c := fun c hc =>
            toLower_of_isDigit (TokenKind.isDigit_of_ofText (h.symm.trans hkind) c hc)
          rw [List.map_congr_left hdigits, List.map_id']
      · rfl

end Lexeme

/-- The lexemes of a text in lower case are its lexemes in lower case. -/
theorem lexemes_map_toLower (text : List Char) :
    lexemes (text.map Char.toLower) = (lexemes text).map Lexeme.lower := by
  induction text with
  | nil => rfl
  | cons c text ih => rw [List.map_cons, lexemes_cons, ih, Lexeme.attach_toLower, lexemes_cons]

/-- Case is lost on the symbols of a text. -/
theorem symbols_map_toLower (text : List Char) :
    symbols (text.map Char.toLower) = symbols text := by
  rw [symbols_eq_filterMap, symbols_eq_filterMap, lexemes_map_toLower, List.filterMap_map]
  exact List.filterMap_congr fun piece hpiece =>
    Lexeme.symbol?_lower (spelled_of_mem_lexemes text piece hpiece)

/-! ### Blanks -/

/-- Lexemes with blanks in front of them, at the places where they begin, and at the end. -/
def spaced (blanks : Nat → List Char) : Nat → List Lexeme → List Lexeme
  | i, [] => (blanks i).map .spacing
  | i, piece :: more =>
    (blanks i).map .spacing ++ piece :: spaced blanks (i + piece.text.length) more

/-- Blanks have no symbols. -/
theorem filterMap_symbol?_spaced (blanks : Nat → List Char) (start : Nat) (pieces : List Lexeme) :
    (spaced blanks start pieces).filterMap Lexeme.symbol? = pieces.filterMap Lexeme.symbol? := by
  have hblanks (i : Nat) : ((blanks i).map Lexeme.spacing).filterMap Lexeme.symbol? = [] := by
    rw [List.filterMap_map, List.filterMap_eq_nil_iff]
    exact fun _ _ => rfl
  induction pieces generalizing start with
  | nil => exact hblanks start
  | cons piece more ih =>
      rw [spaced, List.filterMap_append, hblanks, List.nil_append, List.filterMap_cons,
        List.filterMap_cons, ih]

/-- Blanks leave lexemes whole that are at no place inside one of them. -/
def Unbroken (blanks : Nat → List Char) : Nat → List Lexeme → Prop
  | _, [] => True
  | i, piece :: more =>
    (∀ j, i < j → j < i + piece.text.length → blanks j = []) ∧
      Unbroken blanks (i + piece.text.length) more

/-- Blanks at no place inside a token leave lexemes whole. -/
theorem unbroken_of_forall_ofLexemes {blanks : Nat → List Char} {start : Nat} {pieces : List Lexeme}
    (h : ∀ token ∈ Token.ofLexemes start pieces, ∀ i,
      token.extent.start < i → i < token.extent.stop → blanks i = []) :
    Unbroken blanks start pieces := by
  induction pieces generalizing start with
  | nil => trivial
  | cons piece more ih =>
      cases piece with
      | spacing c =>
          refine ⟨fun j hlow hhigh => ?_, ih h⟩
          rw [Lexeme.text, List.length_singleton] at hhigh
          omega
      | token kind word =>
          obtain ⟨hfirst, hmore⟩ := List.forall_mem_cons.mp h
          exact ⟨hfirst, ih hmore⟩

/-- A character that does not join the first of some lexemes does not join it behind blanks. -/
theorem join?_head?_spaced {c : Char} {pieces : List Lexeme}
    (h : ∀ next ∈ pieces.head?, Lexeme.join? c next = none) (blanks : Nat → List Char) (i : Nat) :
    ∀ next ∈ (spaced blanks i pieces).head?, Lexeme.join? c next = none := by
  intro next hnext
  cases hblanks : blanks i with
  | nil =>
      cases pieces with
      | nil =>
          rw [spaced, hblanks] at hnext
          cases hnext
      | cons piece more =>
          rw [spaced, hblanks] at hnext
          exact h next hnext
  | cons blank others =>
      have hspacing : next = .spacing blank := by
        cases pieces <;>
        · rw [spaced, hblanks] at hnext
          exact (Option.some.inj hnext).symm
      rw [hspacing]
      rfl

/-- A character that is put before lexemes with blanks stands before their blanks, unless it joins
the first of them, where there are none. -/
theorem attach_spaced {blanks : Nat → List Char} {start : Nat} {c : Char} {pieces : List Lexeme}
    (hne : ∀ piece ∈ pieces, piece.text ≠ [])
    (h : Unbroken blanks start (Lexeme.attach c pieces)) :
    (blanks start).map .spacing ++ Lexeme.attach c (spaced blanks (start + 1) pieces) =
        spaced blanks start (Lexeme.attach c pieces) ∧
      Unbroken blanks (start + 1) pieces := by
  by_cases halone : ∀ next ∈ pieces.head?, Lexeme.join? c next = none
  · rw [Lexeme.attach_eq_cons halone] at h ⊢
    rw [Lexeme.attach_eq_cons (join?_head?_spaced halone blanks (start + 1)), spaced]
    rw [Unbroken, Lexeme.text_single] at h
    rw [Lexeme.text_single]
    exact ⟨rfl, h.2⟩
  · cases pieces with
    | nil => exact absurd nofun halone
    | cons next more =>
        obtain ⟨joined, hjoined⟩ : ∃ joined, Lexeme.join? c next = some joined := by
          refine Option.ne_none_iff_exists'.mp fun hnone => halone fun first hfirst => ?_
          rwa [← Option.some.inj hfirst]
        have htext := Lexeme.text_of_join?_eq_some hjoined
        have hpos := List.length_pos_of_ne_nil (hne next List.mem_cons_self)
        have hlength : start + joined.text.length = start + 1 + next.text.length := by
          rw [htext, List.length_cons]
          omega
        rw [Lexeme.attach, hjoined, Unbroken, hlength] at h
        obtain ⟨hinside, hmore⟩ := h
        -- The place between the two characters is inside what they make together.
        have hseam : blanks (start + 1) = [] := hinside (start + 1) (by omega) (by omega)
        rw [spaced, hseam, List.map_nil, List.nil_append, Lexeme.attach, Lexeme.attach, hjoined,
          spaced, hlength]
        exact ⟨rfl, fun j hlow hhigh => hinside j (by omega) hhigh, hmore⟩

/-- Blanks that leave the lexemes of a text whole stand between them. Induction on the text. -/
theorem lexemes_interleave {blanks : Nat → List Char} (hblanks : ∀ i, (blanks i).all isSpacing)
    {text : List Char} {start : Nat} (h : Unbroken blanks start (lexemes text)) :
    lexemes (interleave blanks start text) = spaced blanks start (lexemes text) := by
  induction text generalizing start with
  | nil =>
      rw [interleave, ← List.append_nil (blanks start), lexemes_blanks_append (hblanks start)]
      exact List.append_nil _
  | cons c text ih =>
      rw [lexemes_cons] at h ⊢
      obtain ⟨hattach, hmore⟩ := attach_spaced (fun piece hpiece =>
        (wellMade_of_mem_lexemes text piece hpiece).text_ne_nil) h
      rw [interleave, lexemes_blanks_append (hblanks start), lexemes_cons, ih hmore, hattach]

/-- Blanks outside the tokens of a text are lost on its symbols. -/
theorem symbols_interleave {blanks : Nat → List Char} (hblanks : ∀ i, (blanks i).all isSpacing)
    {text : List Char} (h : ∀ token ∈ tokenize text, ∀ i,
      token.extent.start < i → i < token.extent.stop → blanks i = []) :
    symbols (interleave blanks 0 text) = symbols text := by
  rw [symbols_eq_filterMap, lexemes_interleave hblanks (unbroken_of_forall_ofLexemes h),
    filterMap_symbol?_spaced, ← symbols_eq_filterMap]

/-! ### Parsing -/

/-- Blanks and case are independent of each other. -/
theorem map_toLower_interleave (blanks : Nat → List Char) (start : Nat) {text text' : List Char}
    (h : text.map Char.toLower = text'.map Char.toLower) :
    (interleave blanks start text).map Char.toLower =
      (interleave blanks start text').map Char.toLower := by
  induction text generalizing start text' with
  | nil =>
      obtain rfl := List.map_eq_nil_iff.mp h.symm
      rfl
  | cons c text ih =>
      cases text' with
      | nil => cases h
      | cons c' text' =>
          obtain ⟨hc, htext⟩ := List.cons.inj h
          rw [interleave, interleave, List.map_append, List.map_append, List.map_cons,
            List.map_cons, hc, ih (start + 1) htext]

/-- Another spelling has the symbols of the text. -/
theorem Respelling.symbols_text {text : List Char} (respelling : Respelling text) :
    symbols respelling.text = symbols text := by
  calc symbols respelling.text
      = symbols (respelling.text.map Char.toLower) := (symbols_map_toLower _).symm
    _ = symbols ((interleave respelling.blanks 0 text).map Char.toLower) :=
        congrArg symbols (map_toLower_interleave respelling.blanks 0 respelling.letters_eq)
    _ = symbols (interleave respelling.blanks 0 text) := symbols_map_toLower _
    _ = symbols text := symbols_interleave respelling.isSpacing_blanks respelling.blanks_inside

/-- What parsing finds, but for the places in the text, is what the reader makes of the symbols. -/
theorem parse_eq_read (limits : Limits) (text : String) :
    ((parse limits text).map Expression.terms).mapError Rejection.cause =
      (Reader.start.read limits 0 (symbols text.toList)).mapError Objection.cause := by
  rw [parse, parseTerms, symbols_eq_map]
  cases Reader.start.read limits 0 ((tokenize text.toList).map Token.symbol) <;> rfl

/-- **Notation in another spelling.** Another spelling of a text is parsed if the text is, to the
same terms; and if it is rejected, then for the same cause with the same particulars. -/
theorem parse_respelled (limits : Limits) (text : String) (respelling : Respelling text.toList) :
    ((parse limits (String.ofList respelling.text)).map Expression.terms).mapError Rejection.cause =
      ((parse limits text).map Expression.terms).mapError Rejection.cause := by
  rw [parse_eq_read, parse_eq_read, String.toList_ofList, respelling.symbols_text]

/-- A roll with a blank at every place but the one inside its pair of letters, which is parsed, and
a rejected one with capital letters. -/
theorem parse_respelled_of_spread_and_of_capital :
    (∃ respelling : Respelling "4d6kh3+2".toList,
      String.ofList respelling.text = " 4 D 6 Kh 3 + 2 " ∧
        ((parse {} (String.ofList respelling.text)).map Expression.terms).mapError Rejection.cause =
          .ok [.dice ⟨4, 6, [.select .keepHighest 3], by decide⟩, .operator .plus, .constant 2]) ∧
    (∃ respelling : Respelling "4d6k9€".toList,
      String.ofList respelling.text = "4D6K9€\n" ∧
        ((parse {} (String.ofList respelling.text)).map Expression.terms).mapError Rejection.cause =
          .error (.selectsAllDice "kh" 9 4)) := by
  have hpair : ∀ token ∈ tokenize "4d6kh3+2".toList, ∀ i < 8,
      token.extent.start < i → i < token.extent.stop → i = 4 := by decide +kernel
  have halone : ∀ token ∈ tokenize "4d6k9€".toList, ∀ i < 6,
      token.extent.start < i → ¬ i < token.extent.stop := by decide +kernel
  refine ⟨⟨⟨"4D6Kh3+2".toList, by decide, fun i => if i = 4 then [] else [' '],
      fun i => by split <;> rfl, fun token htoken i hlow hhigh => ?_⟩, rfl,
      (parse_respelled {} "4d6kh3+2" _).trans (by decide +kernel)⟩,
    ⟨⟨"4D6K9€".toList, by decide, fun i => if i = 6 then ['\n'] else [],
      fun i => by split <;> rfl, fun token htoken i hlow hhigh => ?_⟩, rfl,
      (parse_respelled {} "4d6k9€" _).trans (by decide +kernel)⟩⟩
  · have hstop := (slice_extent_of_mem_tokenize htoken).2
    exact if_pos (hpair token htoken i (Nat.lt_of_lt_of_le hhigh hstop) hlow hhigh)
  · have hstop := (slice_extent_of_mem_tokenize htoken).2
    exact absurd hhigh (halone token htoken i (Nat.lt_of_lt_of_le hhigh hstop) hlow)

end Dicebox
