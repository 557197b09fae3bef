import Dicebox.Token

/-!
# Where tokens stand

A token carries the number of characters before it. This module shows that it really stands there:
the text is what comes before the token, the characters of the token, and what follows, and between
a token and the next one there is nothing but spacing. No token is empty, and one of a character
that starts no token is that character alone.

## Main definitions

* `Lexeme.WellMade` — what holds of the lexemes of a text.

## Main results

* `forall_mem_lexemes` — what a character keeps in front of a lexeme holds of all lexemes.
* `wellMade_of_mem_lexemes` — the lexemes of a text are well-made.
* `exists_lexemes_append_of_mem_tokenize` — a token stands between the lexemes of its text.
* `exists_append_of_getElem?_tokenize` — a token stands in its text.
* `exists_append_of_getElem?_tokenize_succ` — two tokens, one right behind the other, stand in their
  text with nothing but spacing between them.
-/

namespace Dicebox

/-! ### Lexemes -/

namespace Lexeme

/-- A lexeme is a blank character, or a token which is not empty and, if its kind is unknown, a
single character. -/
def WellMade : Lexeme → Prop
  | spacing c => isSpacing c = true
  | token kind text => text ≠ [] ∧ (kind = .unknown → text.length = 1)

/-- A well-made lexeme is not empty. -/
theorem WellMade.text_ne_nil {lexeme : Lexeme} (h : lexeme.WellMade) : lexeme.text ≠ [] := by
  cases lexeme with
  | spacing c => exact List.cons_ne_nil _ _
  | token kind text => exact h.1

/-- A character alone is well-made. -/
theorem wellMade_single (c : Char) : (single c).WellMade := by
  rw [single]
  split
  · next hspacing => exact hspacing
  · exact ⟨List.cons_ne_nil _ _, fun _ => rfl⟩

/-- Two letters that make a pair make no unknown token. -/
theorem ofPair_ne_unknown {first second : Char} {kind : TokenKind}
    (h : TokenKind.ofPair first second = some kind) : kind ≠ .unknown := by
  rw [TokenKind.ofPair] at h
  split at h <;> cases h <;> exact nofun

/-- What a character makes with the lexeme behind it is well-made. -/
theorem wellMade_of_join?_eq_some {c : Char} {next joined : Lexeme}
    (h : join? c next = some joined) : joined.WellMade := by
  rw [join?.eq_def] at h
  split at h
  · split at h
    · cases h
      exact ⟨List.cons_ne_nil _ _, fun hunknown => by cases hunknown⟩
    · cases h
  · obtain ⟨kind, hkind, rfl⟩ := Option.map_eq_some_iff.mp h
    exact ⟨List.cons_ne_nil _ _, fun hunknown => absurd hunknown (ofPair_ne_unknown hkind)⟩
  · cases h

end Lexeme

/-- What holds of a character alone, and of what a character makes with such a lexeme behind it,
holds of the lexemes of a text. -/
theorem forall_mem_lexemes {p : Lexeme → Prop} (hsingle : ∀ c, p (.single c))
    (hjoin : ∀ {c : Char} {next joined : Lexeme},
      p next → Lexeme.join? c next = some joined → p joined) (text : List Char) :
    ∀ lexeme ∈ lexemes text, p lexeme := by
  induction text with
  | nil => exact nofun
  | cons c text ih =>
      change ∀ lexeme ∈ Lexeme.attach c (lexemes text), p lexeme
      cases htext : lexemes text with
      | nil => exact List.forall_mem_singleton.mpr (hsingle c)
      | cons next more =>
          rw [htext] at ih
          obtain ⟨hnext, hmore⟩ := List.forall_mem_cons.mp ih
          rw [Lexeme.attach]
          split
          · next joined hjoined => exact List.forall_mem_cons.mpr ⟨hjoin hnext hjoined, hmore⟩
          · exact List.forall_mem_cons.mpr ⟨hsingle c, ih⟩

/-- The lexemes of a text are well-made. -/
theorem wellMade_of_mem_lexemes (text : List Char) : ∀ lexeme ∈ lexemes text, lexeme.WellMade :=
  forall_mem_lexemes Lexeme.wellMade_single (fun _ => Lexeme.wellMade_of_join?_eq_some) text

/-! ### Tokens among lexemes -/

variable {pieces : List Lexeme} {start i : Nat} {token next : Token}

/-- Before the first token among lexemes there is only spacing. -/
theorem exists_append_of_getElem?_ofLexemes_zero
    (h : (Token.ofLexemes start pieces)[0]? = some token) :
    ∃ (blanks : List Char) (back : List Lexeme),
      pieces = blanks.map .spacing ++ .token token.kind token.text :: back ∧
        token.start = start + blanks.length := by
  induction pieces generalizing start with
  | nil => cases h
  | cons first pieces ih =>
      cases first with
      | spacing c =>
          obtain ⟨blanks, back, rfl, hstart⟩ := ih h
          exact ⟨c :: blanks, back, rfl, by rw [hstart, List.length_cons]; omega⟩
      | token kind text =>
          obtain rfl := Option.some.inj h
          exact ⟨[], pieces, rfl, rfl⟩

/-- A token is one of the lexemes, and stands behind the characters of those before it. The tokens
behind it are those of the lexemes behind it. -/
theorem exists_append_of_getElem?_ofLexemes
    (h : (Token.ofLexemes start pieces)[i]? = some token) :
    ∃ front back, pieces = front ++ .token token.kind token.text :: back ∧
      token.start = start + (front.flatMap Lexeme.text).length ∧
      (Token.ofLexemes start pieces)[i + 1]? =
        (Token.ofLexemes (token.start + token.text.length) back)[0]? := by
  induction pieces generalizing start i with
  | nil => cases h
  | cons first pieces ih =>
      cases first with
      | spacing c =>
          obtain ⟨front, back, rfl, hstart, hnext⟩ := ih h
          refine ⟨.spacing c :: front, back, rfl, ?_, hnext⟩
          rw [hstart, List.flatMap_cons, List.length_append, Lexeme.text, List.length_singleton]
          omega
      | token kind text =>
          cases i with
          | zero =>
              obtain rfl := Option.some.inj h
              exact ⟨[], pieces, rfl, rfl, rfl⟩
          | succ i =>
              obtain ⟨front, back, rfl, hstart, hnext⟩ := ih h
              refine ⟨.token kind text :: front, back, rfl, ?_, hnext⟩
              rw [hstart, List.flatMap_cons, List.length_append, Lexeme.text]
              omega

/-! ### Tokens of a text -/

variable {text : List Char}

/-- A token of a text is one of its lexemes, and stands between the characters of the others. -/
theorem exists_lexemes_append_of_mem_tokenize (h : token ∈ tokenize text) :
    ∃ front back, lexemes text = front ++ .token token.kind token.text :: back ∧
      text = front.flatMap Lexeme.text ++ token.text ++ back.flatMap Lexeme.text ∧
      (front.flatMap Lexeme.text).length = token.start := by
  obtain ⟨i, hi⟩ := List.getElem?_of_mem h
  obtain ⟨front, back, hpieces, hstart, -⟩ := exists_append_of_getElem?_ofLexemes hi
  refine ⟨front, back, hpieces, ?_, ?_⟩
  · rw [← flatMap_text_lexemes text, hpieces, List.flatMap_append, List.flatMap_cons,
      List.append_assoc]
    rfl
  · rw [hstart, Nat.zero_add]

/-- A token of a text is one of its lexemes. -/
theorem token_mem_lexemes (h : token ∈ tokenize text) :
    .token token.kind token.text ∈ lexemes text := by
  obtain ⟨front, back, hpieces, -⟩ := exists_lexemes_append_of_mem_tokenize h
  rw [hpieces]
  exact List.mem_append_cons_self

/-- A token of a text is not empty, and a single character if its kind is unknown. -/
theorem wellMade_of_getElem?_tokenize (h : (tokenize text)[i]? = some token) :
    token.text ≠ [] ∧ (token.kind = .unknown → token.text.length = 1) :=
  wellMade_of_mem_lexemes text _ (token_mem_lexemes (List.mem_of_getElem? h))

/-- A token stands in its text, behind as many characters as it says. -/
theorem exists_append_of_getElem?_tokenize (h : (tokenize text)[i]? = some token) :
    ∃ before after, text = before ++ token.text ++ after ∧ before.length = token.start := by
  obtain ⟨front, back, -, htext, hstart⟩ :=
    exists_lexemes_append_of_mem_tokenize (List.mem_of_getElem? h)
  exact ⟨_, _, htext, hstart⟩

/-- The characters of spacing are the characters that were spaced. -/
theorem flatMap_text_spacing (blanks : List Char) :
    (blanks.map Lexeme.spacing).flatMap Lexeme.text = blanks := by
  rw [List.flatMap_map]
  exact List.flatMap_singleton' blanks

/-- A token and the one right behind it stand in their text with only spacing between them. -/
theorem exists_append_of_getElem?_tokenize_succ (h : (tokenize text)[i]? = some token)
    (hnext : (tokenize text)[i + 1]? = some next) :
    ∃ before blanks after, text = before ++ (token.text ++ blanks ++ next.text) ++ after ∧
      before.length = token.start ∧
      next.start = token.start + (token.text ++ blanks).length ∧ blanks.all isSpacing := by
  obtain ⟨front, back, hpieces, hstart, hbehind⟩ := exists_append_of_getElem?_ofLexemes h
  obtain ⟨blanks, rest, rfl, hplace⟩ :=
    exists_append_of_getElem?_ofLexemes_zero (hbehind.symm.trans hnext)
  refine ⟨front.flatMap Lexeme.text, blanks, rest.flatMap Lexeme.text, ?_, ?_, ?_, ?_⟩
  · rw [← flatMap_text_lexemes text, hpieces]
    simp only [List.flatMap_append, List.flatMap_cons, flatMap_text_spacing, List.append_assoc]
    rfl
  · rw [hstart, Nat.zero_add]
  · rw [hplace, List.length_append, Nat.add_assoc]
  · rw [List.all_eq_true]
    intro c hc
    refine wellMade_of_mem_lexemes text (.spacing c) ?_
    rw [hpieces]
    simp [hc]

end Dicebox
