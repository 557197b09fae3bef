import Dicebox.Proofs.LongestMatch
import Dicebox.Proofs.Rejections

/-!
# The stretches of tokens

The tokens of a text lie in it one behind the other, and between them there is nothing but blank
characters. This module follows them to the bytes: a byte of the text is in a token exactly when it
belongs to a character that is not blank. So no byte counts twice and none is lost.

Each token is the longest at its place, which `LongestCut` says of the lexemes of a text, and the
text behind a token is cut as it is on its own. For the same reason the blanks between tokens do not
matter: with one blank between any two of them, the tokens are cut again as they were.

## Main definitions

* `Token.Stands` — a token stands between two parts of a text, in characters and in bytes.
* `Token.Longest` — a token is the longest in front of a text, or a character that begins none.

## Main results

* `lexemes_flatMap_text_of_eq_append` — the lexemes behind any are those of their own text.
* `exists_mem_ofLexemes_iff` — a character is in a token exactly when it is not blank.
* `lexemes_intercalate` — lexemes are cut again when blanks are put between them.
* `tokenize_spans` — what the tokens of a text cover.
-/

namespace Dicebox

/-! ### Tokens in a text -/

namespace Token

/-- A token stands in a text, in characters and in bytes. Its ends are between characters of the
text, and it takes a byte at least. -/
structure Stands (token : Token) (text before after : String) : Prop where
  text_eq : text = before ++ String.ofList token.text ++ after
  start_eq : token.start = before.length
  byteStart_eq : token.extent.byteStart text.toList = before.utf8ByteSize
  byteStop_eq :
    token.extent.byteStop text.toList = (before ++ String.ofList token.text).utf8ByteSize
  byteStart_lt : token.extent.byteStart text.toList < token.extent.byteStop text.toList

/-- A token is the longest that there is in front of a text. -/
structure Longest (token : Token) (after : List Char) : Prop where
  /-- A token of a known kind is a word of this kind, and no longer word begins at its place. -/
  longest : token.kind ≠ .unknown → token.kind.Matches token.text ∧
    ∀ (other : TokenKind) (word : List Char), other.Matches word →
      word <+: token.text ++ after → word.length ≤ token.text.length
  /-- A number does not go on. -/
  digit : token.kind = .integer → ∀ c ∈ after.head?, c.isDigit = false
  /-- A letter that could be in a pair is in none. -/
  letter : token.kind = .dice ∨ token.kind = .keep → ∀ c ∈ after.head?, c ∉ ['h', 'H', 'l', 'L']
  /-- A token of the unknown kind is one character, which is not blank and begins no word. -/
  unknown : token.kind = .unknown → ∃ c, token.text = [c] ∧ isSpacing c = false ∧
    ∀ (kind : TokenKind) (rest : List Char), ¬ kind.Matches (c :: rest)

/-- A token without its place. -/
def lexeme (token : Token) : Lexeme :=
  .token token.kind token.text

end Token

/-- A token stands in a text that its characters are the middle part of. -/
theorem Token.stands_of_eq_append {text : String} {token : Token} {before after : List Char}
    (hne : token.text ≠ []) (htext : text.toList = before ++ token.text ++ after)
    (hstart : before.length = token.start) :
    token.Stands text (String.ofList before) (String.ofList after) := by
  have hextent : token.extent = ⟨before.length, (before ++ token.text).length⟩ := by
    rw [Token.extent, List.length_append, hstart]
  have hbytes : token.extent.byteStart text.toList = (String.ofList before).utf8ByteSize := by
    rw [hextent, htext, Text.Extent.byteStart_append]
  have hbytes' : token.extent.byteStop text.toList =
      (String.ofList before ++ String.ofList token.text).utf8ByteSize := by
    rw [hextent, htext, Text.Extent.byteStop_append]
  refine ⟨?_, by rw [String.length_ofList, hstart], hbytes, hbytes', ?_⟩
  · rw [← String.ofList_append, ← String.ofList_append, ← htext, String.ofList_toList]
  · have hpos : (String.ofList token.text).utf8ByteSize ≠ 0 := by
      rwa [Ne, String.utf8ByteSize_eq_zero_iff, String.ofList_eq_empty_iff]
    rw [hbytes, hbytes', String.utf8ByteSize_append]
    omega

/-- The lexemes behind any of a text are those of their own characters. Induction on the lexemes in
front. -/
theorem lexemes_flatMap_text_of_eq_append {text : List Char} {front back : List Lexeme}
    (h : lexemes text = front ++ back) : lexemes (back.flatMap Lexeme.text) = back := by
  induction front generalizing text with
  | nil =>
      obtain rfl : lexemes text = back := h
      rw [flatMap_text_lexemes]
  | cons first front ih =>
      obtain ⟨rest, -, hrest⟩ := exists_append_of_lexemes_eq_cons h
      exact ih hrest

/-- A token of a text is the first lexeme of the text from its place on. -/
theorem exists_lexemes_of_mem_tokenize {text : List Char} {token : Token}
    (h : token ∈ tokenize text) :
    ∃ before after more, text = before ++ token.text ++ after ∧ before.length = token.start ∧
      lexemes (token.text ++ after) = token.lexeme :: more := by
  obtain ⟨front, back, hpieces, htext, hstart⟩ := exists_lexemes_append_of_mem_tokenize h
  exact ⟨_, _, back, htext, hstart, lexemes_flatMap_text_of_eq_append hpieces⟩

/-! ### Longest tokens -/

namespace TokenKind

/-- The words of a pattern begin with a character that makes a token alone. -/
theorem ofText_take_of_mem_sections {kind : TokenKind} {pattern : List (List Char)}
    (h : kind.pattern? = some pattern) :
    ∀ word ∈ pattern.sections, ofText (word.take 1) ≠ unknown := by
  cases kind <;> cases h <;> decide

/-- A character that begins a word makes a token alone. -/
theorem Matches.ofText_head_ne {kind : TokenKind} {c : Char} {rest : List Char}
    (h : kind.Matches (c :: rest)) : ofText [c] ≠ unknown := by
  cases h with
  | digits _ hdigits =>
      have hall : [c].all Char.isDigit := by simpa using hdigits c List.mem_cons_self
      rw [ofText.eq_def, if_pos hall]
      decide
  | letters hpattern hword =>
      exact ofText_take_of_mem_sections hpattern _ (List.mem_sections.mpr hword)

/-- The words of a pattern that begins pairs make a token with each of the second letters. -/
theorem ofText_append_of_mem_sections {kind : TokenKind} {pattern : List (List Char)}
    (h : kind.pattern? = some pattern) (hkind : kind = dice ∨ kind = keep) :
    ∀ word ∈ pattern.sections,
      ['h', 'H', 'l', 'L'].all fun c => ofText (word ++ [c]) != unknown := by
  rcases hkind with rfl | rfl <;> cases h <;> decide

/-- A letter that begins pairs makes a token with each of the second letters. -/
theorem Matches.ofText_append_ne {kind : TokenKind} {word : List Char} (h : kind.Matches word)
    (hkind : kind = dice ∨ kind = keep) {c : Char} (hc : c ∈ ['h', 'H', 'l', 'L']) :
    ofText (word ++ [c]) ≠ unknown := by
  cases h with
  | digits => rcases hkind with hkind | hkind <;> cases hkind
  | letters hpattern hword =>
      have hall := ofText_append_of_mem_sections hpattern hkind _ (List.mem_sections.mpr hword)
      exact bne_iff_ne.mp (List.all_eq_true.mp hall c hc)

end TokenKind

/-- A longest word and the character behind it make no token. -/
theorem ofText_append_eq_unknown {word after : List Char}
    (h : ∀ (other : TokenKind) (longer : List Char), other.Matches longer →
      longer <+: word ++ after → longer.length ≤ word.length) {c : Char} (hc : c ∈ after.head?) :
    TokenKind.ofText (word ++ [c]) = .unknown := by
  by_contra hkind
  have hmatches : (TokenKind.ofText (word ++ [c])).Matches (word ++ [c]) :=
    TokenKind.matches_iff_ofText.mpr ⟨List.append_ne_nil_of_right_ne_nil _ nofun, hkind, rfl⟩
  obtain ⟨rest, rfl⟩ := List.head?_eq_some_iff.mp hc
  have hlength := h _ _ hmatches ⟨rest, by simp⟩
  rw [List.length_append, List.length_singleton] at hlength
  omega

/-- Digits are not followed by a digit with which they make no token. -/
theorem isDigit_eq_false_of_ofText_append {digits : List Char} {c : Char}
    (hdigits : ∀ d ∈ digits, d.isDigit) (h : TokenKind.ofText (digits ++ [c]) = .unknown) :
    c.isDigit = false := by
  rw [Bool.eq_false_iff]
  intro hdigit
  have hall : (digits ++ [c]).all Char.isDigit := by
    rw [List.all_append, List.all_eq_true.mpr hdigits, Bool.true_and]
    simpa using hdigit
  rw [TokenKind.ofText.eq_def, if_pos hall] at h
  cases h

/-- The first piece of a text, if it is a token, is the longest there. -/
theorem longest_of_lexemes_eq_cons {token : Token} {after : List Char} {more : List Lexeme}
    (h : lexemes (token.text ++ after) = token.lexeme :: more) : token.Longest after := by
  have hmem : token.lexeme ∈ lexemes (token.text ++ after) := h ▸ List.mem_cons_self
  have hlongest (hkind : token.kind ≠ .unknown) : token.kind.Matches token.text ∧
      ∀ (other : TokenKind) (word : List Char), other.Matches word →
        word <+: token.text ++ after → word.length ≤ token.text.length := by
    refine ⟨matches_of_mem_lexemes hmem hkind, fun other word hmatches hbegins => ?_⟩
    obtain ⟨kind, longest, others, hlexemes, -, hlength⟩ :=
      exists_token_of_matches hmatches hbegins
    obtain ⟨hfirst, -⟩ := List.cons.inj (h.symm.trans hlexemes)
    rw [(Lexeme.token.inj hfirst).2]
    exact hlength
  refine ⟨hlongest, fun hkind c hc => ?_, fun hkind c hc hletter => ?_, fun hkind => ?_⟩
  · obtain ⟨hmatches, hlonger⟩ := hlongest (hkind ▸ nofun)
    have hdigits : ∀ d ∈ token.text, d.isDigit :=
      TokenKind.isDigit_of_ofText ((TokenKind.matches_iff_ofText.mp hmatches).2.2.trans hkind)
    exact isDigit_eq_false_of_ofText_append hdigits (ofText_append_eq_unknown hlonger hc)
  · have hknown : token.kind ≠ .unknown := by
      rcases hkind with hkind | hkind <;> exact hkind ▸ nofun
    obtain ⟨hmatches, hlonger⟩ := hlongest hknown
    exact hmatches.ofText_append_ne hkind hletter (ofText_append_eq_unknown hlonger hc)
  · obtain ⟨c, hc⟩ := List.length_eq_one_iff.mp ((wellMade_of_mem_lexemes _ _ hmem).2 hkind)
    have hspacing : isSpacing c = false :=
      solid_of_mem_lexemes _ _ hmem c (hc ▸ List.mem_cons_self)
    have hunknown : TokenKind.ofText [c] = .unknown :=
      hc ▸ (spelled_of_mem_lexemes _ _ hmem).symm.trans hkind
    exact ⟨c, hc, hspacing, fun kind rest hmatches => hmatches.ofText_head_ne hunknown⟩

/-! ### Characters in tokens -/

/-- No token among lexemes begins before they do. -/
theorem le_start_of_mem_ofLexemes {pieces : List Lexeme} {start : Nat} {token : Token}
    (h : token ∈ Token.ofLexemes start pieces) : start ≤ token.start := by
  induction pieces generalizing start with
  | nil => cases h
  | cons piece pieces ih =>
      cases piece with
      | spacing c => exact (Nat.le_succ start).trans (ih h)
      | token kind word =>
          rcases List.mem_cons.mp h with rfl | h
          · exact Nat.le_refl _
          · exact (Nat.le_add_right start _).trans (ih h)

/-- Every token ends before the tokens behind it. -/
theorem pairwise_ofLexemes (start : Nat) (pieces : List Lexeme) :
    (Token.ofLexemes start pieces).Pairwise fun a b => a.extent.stop ≤ b.extent.start := by
  induction pieces generalizing start with
  | nil => exact .nil
  | cons piece pieces ih =>
      cases piece with
      | spacing c => exact ih (start + 1)
      | token kind word =>
          exact .cons (fun next hnext => le_start_of_mem_ofLexemes hnext) (ih (start + word.length))

/-- A character of lexemes is in a token exactly when it is not blank. Induction on the lexemes:
the character is in the first one, or in those behind it, whose tokens begin where the first one
ends. -/
theorem exists_mem_ofLexemes_iff {pieces : List Lexeme}
    (hpieces : ∀ piece ∈ pieces, piece.WellMade ∧ piece.Solid) {i : Nat} {c : Char}
    (h : (pieces.flatMap Lexeme.text)[i]? = some c) (start : Nat) :
    (∃ token ∈ Token.ofLexemes start pieces,
      token.extent.start ≤ start + i ∧ start + i < token.extent.stop) ↔ isSpacing c = false := by
  induction pieces generalizing i start with
  | nil => cases h
  | cons piece pieces ih =>
      obtain ⟨⟨hmade, hsolid⟩, hmore⟩ := List.forall_mem_cons.mp hpieces
      rw [List.flatMap_cons, List.getElem?_append] at h
      split at h
      · next hi =>
          have hmem : c ∈ piece.text := List.mem_of_getElem? h
          cases piece with
          | spacing d =>
              obtain rfl : c = d := List.mem_singleton.mp hmem
              refine iff_of_false ?_ (by rw [hmade]; exact nofun)
              rintro ⟨token, htoken, hstart, -⟩
              have hle : start + 1 ≤ token.start := le_start_of_mem_ofLexemes htoken
              have hlt : i < 1 := hi
              have hge : token.start ≤ start + i := hstart
              omega
          | token kind word =>
              refine iff_of_true ⟨_, List.mem_cons_self, Nat.le_add_right start i, ?_⟩
                (hsolid c hmem)
              exact Nat.add_lt_add_left hi start
      · next hi =>
          -- The character is behind the first lexeme, and so are the tokens that may have it.
          have hrest := ih hmore h (start + piece.text.length)
          rw [Nat.add_assoc, Nat.add_sub_cancel' (Nat.le_of_not_lt hi)] at hrest
          rw [← hrest]
          cases piece with
          | spacing d => exact Iff.rfl
          | token kind word =>
              rw [Token.ofLexemes, List.exists_mem_cons_iff]
              refine or_iff_right fun hfirst => hi ?_
              exact Nat.lt_of_add_lt_add_left hfirst.2

/-! ### Bytes -/

namespace Text

/-- The characters of two texts take the bytes of both. -/
theorem byteLength_append (cs more : List Char) :
    byteLength (cs ++ more) = byteLength cs + byteLength more := by
  induction cs with
  | nil => exact (Nat.zero_add _).symm
  | cons c cs ih => rw [List.cons_append, byteLength, byteLength, ih, Nat.add_assoc]

/-- More characters take no fewer bytes. -/
theorem byteLength_take_mono (text : List Char) {m n : Nat} (h : m ≤ n) :
    byteLength (text.take m) ≤ byteLength (text.take n) := by
  obtain ⟨more, hmore⟩ := List.take_prefix_take_left (l := text) h
  rw [← hmore, byteLength_append]
  exact Nat.le_add_right _ _

/-- A byte of a character is behind the bytes in front of a place exactly when the character is
behind the place. -/
theorem byteLength_take_le_iff {text : List Char} {i byte : Nat}
    (hlow : byteLength (text.take i) ≤ byte) (hhigh : byte < byteLength (text.take (i + 1)))
    (m : Nat) : byteLength (text.take m) ≤ byte ↔ m ≤ i := by
  constructor
  · intro h
    by_contra hlt
    have hmono := byteLength_take_mono text (show i + 1 ≤ m by omega)
    omega
  · intro h
    exact (byteLength_take_mono text h).trans hlow

end Text

/-! ### Tokens again -/

/-- Lexemes that are each cut from their own text are cut again when blanks are put between them. -/
theorem lexemes_intercalate {words : List Lexeme}
    (h : ∀ word ∈ words, lexemes word.text = [word]) :
    lexemes ([' '].intercalate (words.map Lexeme.text)) = words.intersperse (.spacing ' ') := by
  induction words with
  | nil => rfl
  | cons word words ih =>
      obtain ⟨hword, hmore⟩ := List.forall_mem_cons.mp h
      cases words with
      | nil =>
          rw [List.map_singleton, List.intercalate_singleton, hword, List.intersperse_singleton]
      | cons next words =>
          have hblank (rest : List Char) : lexemes (' ' :: rest) = .spacing ' ' :: lexemes rest :=
            lexemes_blanks_append (show [' '].all isSpacing from rfl) rest
          have hseam (rest : List Char) : ∀ c, ∀ first ∈ (lexemes (' ' :: rest)).head?,
              Lexeme.join? c first = none := by
            intro c first hfirst
            rw [hblank] at hfirst
            obtain rfl := Option.some.inj hfirst
            rfl
          rw [List.map_cons, List.map_cons, List.intercalate_cons_cons, List.append_assoc,
            List.singleton_append, lexemes_append (hseam _), hword, hblank, ← List.map_cons,
            ih hmore, List.intersperse_cons_cons]
          rfl

/-- The tokens among lexemes with blanks between them are those lexemes. -/
theorem map_lexeme_ofLexemes_intersperse (start : Nat) (tokens : List Token) :
    (Token.ofLexemes start ((tokens.map Token.lexeme).intersperse (.spacing ' '))).map
      Token.lexeme = tokens.map Token.lexeme := by
  induction tokens generalizing start with
  | nil => rfl
  | cons token tokens ih =>
      cases tokens with
      | nil => rfl
      | cons next tokens =>
          rw [List.map_cons, List.map_cons, List.intersperse_cons_cons]
          exact congrArg (_ :: ·) (ih _)

/-- The tokens of a text are cut again when a blank is put between them. -/
theorem map_lexeme_tokenize_intercalate (text : List Char) :
    (tokenize ([' '].intercalate ((tokenize text).map Token.text))).map Token.lexeme =
      (tokenize text).map Token.lexeme := by
  have hwords : ∀ word ∈ (tokenize text).map Token.lexeme, lexemes word.text = [word] := by
    intro word hword
    obtain ⟨token, htoken, rfl⟩ := List.mem_map.mp hword
    exact lexemes_text_of_mem_lexemes text _ (token_mem_lexemes htoken)
  have hcut := lexemes_intercalate hwords
  rw [List.map_map] at hcut
  have htexts : (tokenize text).map Token.text =
      (tokenize text).map (Lexeme.text ∘ Token.lexeme) := rfl
  rw [htexts, tokenize, hcut]
  exact map_lexeme_ofLexemes_intersperse 0 (tokenize text)

/-! ### All tokens -/

/-- A byte of a text is in a token exactly when its character is not blank. -/
theorem exists_mem_tokenize_iff {text before after : String} {c : Char} {byte : Nat}
    (htext : text = before ++ String.singleton c ++ after) (hlow : before.utf8ByteSize ≤ byte)
    (hhigh : byte < (before ++ String.singleton c).utf8ByteSize) :
    (∃ token ∈ tokenize text.toList,
      token.extent.byteStart text.toList ≤ byte ∧ byte < token.extent.byteStop text.toList) ↔
        isSpacing c = false := by
  have hcut : text.toList = before.toList ++ [c] ++ after.toList := by
    rw [htext, String.toList_append, String.toList_append, String.toList_singleton]
  have hchar : text.toList[before.toList.length]? = some c := by
    rw [hcut, List.append_assoc, List.getElem?_append_right (Nat.le_refl _), Nat.sub_self]
    rfl
  have hbefore : text.toList.take before.toList.length = before.toList := by
    rw [hcut, List.append_assoc, List.take_left]
  have hthrough : text.toList.take (before.toList.length + 1) =
      (before ++ String.singleton c).toList := by
    rw [hcut, String.toList_append, String.toList_singleton]
    exact List.take_left' List.length_append
  rw [← Text.byteLength_toList, ← hbefore] at hlow
  rw [← Text.byteLength_toList, ← hthrough] at hhigh
  have hplace := Text.byteLength_take_le_iff hlow hhigh
  have hcovered := exists_mem_ofLexemes_iff
    (fun piece hpiece => ⟨wellMade_of_mem_lexemes text.toList piece hpiece,
      solid_of_mem_lexemes text.toList piece hpiece⟩)
    ((flatMap_text_lexemes text.toList).symm ▸ hchar) 0
  rw [← hcovered, Nat.zero_add]
  refine exists_congr fun token => and_congr_right fun _ => and_congr (hplace _) ?_
  rw [← Nat.not_le, ← Nat.not_le]
  exact not_congr (hplace _)

/-- **The stretches of tokens.** Every token of a text stands between two of its characters and
takes some of its bytes; it is the longest at its place, or one character that is not blank and
begins no token. A token ends before those behind it begin. A byte of the text is in a token exactly
when it is a byte of a character that is not blank. And the tokens with one blank between any two
are cut again as they were. -/
theorem tokenize_spans (text : String) :
    (∀ token ∈ tokenize text.toList, ∃ before after,
      token.Stands text before after ∧ token.Longest after.toList) ∧
    (tokenize text.toList).Pairwise (fun a b =>
      a.extent.byteStop text.toList ≤ b.extent.byteStart text.toList) ∧
    (∀ (before after : String) (c : Char) (byte : Nat),
      text = before ++ String.singleton c ++ after → before.utf8ByteSize ≤ byte →
        byte < (before ++ String.singleton c).utf8ByteSize →
        ((∃ token ∈ tokenize text.toList,
          token.extent.byteStart text.toList ≤ byte ∧ byte < token.extent.byteStop text.toList) ↔
            isSpacing c = false)) ∧
    (tokenize ([' '].intercalate ((tokenize text.toList).map Token.text))).map Token.lexeme =
      (tokenize text.toList).map Token.lexeme := by
  refine ⟨fun token htoken => ?_, ?_, fun _ _ _ _ => exists_mem_tokenize_iff,
    map_lexeme_tokenize_intercalate text.toList⟩
  · obtain ⟨before, after, more, htext, hstart, hmore⟩ := exists_lexemes_of_mem_tokenize htoken
    refine ⟨_, _, Token.stands_of_eq_append (ne_nil_of_mem_tokenize htoken) htext hstart, ?_⟩
    rw [String.toList_ofList]
    exact longest_of_lexemes_eq_cons hmore
  · exact (pairwise_ofLexemes 0 (lexemes text.toList)).imp fun hle =>
      Text.byteLength_take_mono text.toList hle

end Dicebox
