import Dicebox.Proofs.Evidence
import Dicebox.Proofs.Lexing
import Dicebox.Proofs.Rejections

/-!
# What a rejection says

A rejection names what is wrong with a text: a token that was not expected, a number as it is
written and the limit that it misses, a qualifier and the dice that it cannot be applied to. What it
says is true of the text itself, of the characters at the bytes that it reports and, for a
qualifier, of the group that is written before it.

The objections of the reader are true of the symbols at their places. This module takes them over to
the text. For that, the kind of a token has to be told by its characters, so that numbers are made
of digits and nothing else; and the bytes of a stretch have to tell where the stretch lies, which
they do because every character takes a byte at least.

## Main definitions

* `TokenKind.ofText`, `IsNumeral` — the kind and the number that characters make.
* `Rejection.Spans` — the bytes that are reported reach from one token to another.
* `Rejection.evidence` — what stands in a text where a rejection reports it.

## Main results

* `kind_eq_ofText` — the kind of a token is told by its characters.
* `Place.evidence_shows` — what stands among the symbols stands in the text.
* `parse_error_particulars` — what is reported of a text is true of it.
-/

namespace Dicebox

/-! ### Characters of a token -/

/-- The kind of the token that characters make: digits make a number, and other tokens are one
character or a pair of letters. -/
def TokenKind.ofText (text : List Char) : TokenKind :=
  if text.all Char.isDigit then integer
  else
    match text with
    | [c] => ofChar c
    | [first, second] => (ofPair first second).getD unknown
    | _ => unknown

/-- Characters are digits, one at least, and write a number. -/
def IsNumeral (digits : List Char) (n : Nat) : Prop :=
  digits ≠ [] ∧ (∀ c ∈ digits, c.isDigit) ∧ decimal digits = n

/-- What makes a number is made of digits. -/
theorem TokenKind.isDigit_of_ofText {text : List Char} (h : ofText text = .integer) :
    ∀ c ∈ text, c.isDigit := by
  rw [← List.all_eq_true]
  by_contra hdigits
  rw [ofText.eq_def, if_neg hdigits] at h
  split at h
  · next c =>
      rw [List.all_cons, List.all_nil, Bool.and_true, Bool.not_eq_true] at hdigits
      exact ofChar_ne_integer hdigits h
  · next first second =>
      cases hpair : ofPair first second with
      | none =>
          rw [hpair] at h
          cases h
      | some kind =>
          rw [hpair] at h
          exact ofPair_ne_integer hpair h
  · cases h

namespace Lexeme

/-- The kind of a lexeme that is a token is told by its characters. -/
def Spelled : Lexeme → Prop
  | spacing _ => True
  | token kind text => kind = .ofText text

/-- A character alone tells what it is. -/
theorem spelled_single (c : Char) : (single c).Spelled := by
  rw [single]
  split
  · trivial
  · rw [Spelled, TokenKind.ofText.eq_def]
    split
    · next hdigit =>
        rw [List.all_cons, List.all_nil, Bool.and_true] at hdigit
        rw [TokenKind.ofChar, if_pos hdigit]
    · rfl

/-- What a character makes with the lexeme behind it is told by the characters of both. -/
theorem spelled_of_join?_eq_some {c : Char} {next joined : Lexeme} (hnext : next.Spelled)
    (h : join? c next = some joined) : joined.Spelled := by
  rw [join?.eq_def] at h
  split at h
  · next digits =>
      split at h
      · next hdigit =>
          cases h
          have hall : (c :: digits).all Char.isDigit := by
            rw [List.all_eq_true]
            exact List.forall_mem_cons.mpr ⟨hdigit, TokenKind.isDigit_of_ofText hnext.symm⟩
          rw [Spelled, TokenKind.ofText.eq_def, if_pos hall]
      · cases h
  · next letter =>
      obtain ⟨kind, hkind, rfl⟩ := Option.map_eq_some_iff.mp h
      have hall : ¬ [c, letter].all Char.isDigit := by
        intro hall
        have hdigit := List.all_eq_true.mp hall c List.mem_cons_self
        rw [ofPair_eq_none_of_isDigit hdigit] at hkind
        cases hkind
      rw [Spelled, TokenKind.ofText.eq_def, if_neg hall]
      exact (congrArg (Option.getD · .unknown) hkind).symm
  · cases h

end Lexeme

/-- The lexemes of a text are told by their characters. -/
theorem spelled_of_mem_lexemes (text : List Char) : ∀ lexeme ∈ lexemes text, lexeme.Spelled :=
  forall_mem_lexemes Lexeme.spelled_single Lexeme.spelled_of_join?_eq_some text

section

variable {text : List Char} {token first number : Token} {before after : List Token}

/-- The kind of a token is told by its characters. -/
theorem kind_eq_ofText (h : token ∈ tokenize text) : token.kind = .ofText token.text :=
  spelled_of_mem_lexemes text _ (token_mem_lexemes h)

/-- No token is empty. -/
theorem ne_nil_of_mem_tokenize (h : token ∈ tokenize text) : token.text ≠ [] :=
  (wellMade_of_mem_lexemes text _ (token_mem_lexemes h)).1

/-- An unknown token is one character. -/
theorem length_of_unknown (h : token ∈ tokenize text) (hkind : token.kind = .unknown) :
    token.text.length = 1 :=
  (wellMade_of_mem_lexemes text _ (token_mem_lexemes h)).2 hkind

/-- A number among tokens is made of digits, and they write it. -/
theorem isNumeral_of_mem_tokenize (h : token ∈ tokenize text) (hkind : token.kind = .integer) :
    IsNumeral token.text token.value := by
  refine ⟨ne_nil_of_mem_tokenize h, ?_, ?_⟩
  · exact TokenKind.isDigit_of_ofText ((kind_eq_ofText h).symm.trans hkind)
  · rw [decimal_eq_ofDigitChars, Token.value, hkind]

/-- The characters of a token stand where the token does. -/
theorem slice_extent_of_mem_tokenize (h : token ∈ tokenize text) :
    token.extent.slice text = token.text ∧ token.extent.stop ≤ text.length := by
  obtain ⟨i, hi⟩ := List.getElem?_of_mem h
  obtain ⟨before, after, htext, hstart⟩ := exists_append_of_getElem?_tokenize hi
  have hstop : token.extent.stop = (before ++ token.text).length := by
    rw [List.length_append, hstart]
    rfl
  constructor
  · rw [Text.Extent.slice, hstop, htext, List.take_left, Token.extent, ← hstart, List.drop_left]
  · rw [hstop, htext]
    exact (List.prefix_append _ after).length_le

end

/-! ### Bytes -/

/-- All characters of a text take all its bytes. -/
theorem Text.byteLength_take_length (text : String) :
    byteLength (text.toList.take text.toList.length) = text.utf8ByteSize := by
  rw [List.take_length, byteLength_toList]

/-- Every character takes a byte, so the bytes in front of a place tell which place it is. -/
theorem Text.eq_of_byteLength_take {text : List Char} {m n : Nat} (hm : m ≤ text.length)
    (hn : n ≤ text.length) (h : byteLength (text.take m) = byteLength (text.take n)) : m = n := by
  induction text generalizing m n with
  | nil => exact (Nat.le_zero.mp hm).trans (Nat.le_zero.mp hn).symm
  | cons c text ih =>
      have hpos := c.utf8Size_pos
      cases m with
      | zero =>
          cases n with
          | zero => rfl
          | succ n =>
              rw [List.take_zero, List.take_succ_cons, byteLength, byteLength] at h
              omega
      | succ m =>
          cases n with
          | zero =>
              rw [List.take_zero, List.take_succ_cons, byteLength, byteLength] at h
              omega
          | succ n =>
              rw [List.take_succ_cons, List.take_succ_cons, byteLength, byteLength] at h
              exact congrArg Nat.succ (ih (Nat.le_of_succ_le_succ hm)
                (Nat.le_of_succ_le_succ hn) (Nat.add_left_cancel h))

/-! ### Tokens that are cut out of a text -/

section

variable {tokens front back : List Token} {first number : Token}

/-- Where the symbols of tokens are cut at a symbol, the tokens are cut at its token. -/
theorem exists_append_of_map_symbol {before after : List Symbol} {symbol : Symbol}
    (h : tokens.map Token.symbol = before ++ symbol :: after) :
    ∃ front token back, tokens = front ++ token :: back ∧ front.map Token.symbol = before ∧
      token.symbol = symbol ∧ back.map Token.symbol = after := by
  obtain ⟨front, behind, rfl, hfront, hbehind⟩ := List.map_eq_append_iff.mp h
  obtain ⟨token, back, rfl, htoken, hback⟩ := List.map_eq_cons_iff.mp hbehind
  exact ⟨front, token, back, rfl, hfront, htoken, hback⟩

/-- The place of one token covers the extent of the token. -/
theorem Place.extent_token (h : tokens = front ++ first :: back) (text : List Char) :
    (Place.tokens front.length front.length).extent text tokens = first.extent := by
  have hfirst : tokens[front.length]? = some first := by simp [h]
  simp only [Place.extent, hfirst, Token.extent]

/-- The place of two tokens reaches from the one to the other. -/
theorem Place.extent_tokens (h : tokens = front ++ first :: number :: back) (text : List Char) :
    (Place.tokens front.length (front.length + 1)).extent text tokens =
      ⟨first.start, number.extent.stop⟩ := by
  have hfirst : tokens[front.length]? = some first := by simp [h]
  have hnumber : tokens[front.length + 1]? = some number := by simp [h]
  simp only [Place.extent, hfirst, hnumber, Token.extent]

/-- From a token to the next one there are their characters, and nothing but spacing between. -/
theorem exists_slice_of_tokenize_eq {text : List Char}
    (h : tokenize text = front ++ first :: number :: back) :
    ∃ blanks, blanks.all isSpacing ∧
      (⟨first.start, number.extent.stop⟩ : Text.Extent).slice text =
        first.text ++ blanks ++ number.text ∧
      number.start = first.start + (first.text ++ blanks).length := by
  have hfirst : (tokenize text)[front.length]? = some first := by simp [h]
  have hnumber : (tokenize text)[front.length + 1]? = some number := by simp [h]
  obtain ⟨before, blanks, after, htext, hstart, hplace, hblanks⟩ :=
    exists_append_of_getElem?_tokenize_succ hfirst hnumber
  refine ⟨blanks, hblanks, ?_, hplace⟩
  have hstop : number.extent.stop = (before ++ (first.text ++ blanks ++ number.text)).length := by
    simp only [Token.extent, hplace, ← hstart, List.length_append, Nat.add_assoc]
  rw [Text.Extent.slice, hstop, htext, List.take_left, ← hstart, List.drop_left]

end

/-! ### What stands in a text -/

/-- The bytes that a rejection reports reach from one token of a text to another. -/
def Rejection.Spans (rejection : Rejection) (text : String) (first last : Token) : Prop :=
  rejection.byteStart = first.extent.byteStart text.toList ∧
    rejection.byteStop = last.extent.byteStop text.toList

/-- What stands in a text where a rejection reports it. -/
def Rejection.evidence (limits : Limits) (text : String) (rejection : Rejection) : Evidence where
  ending last := rejection.byteStart = text.utf8ByteSize ∧ rejection.slice = "" ∧
    (tokenize text.toList).getLast?.map Token.kind = last
  token kind := ∃ token ∈ tokenize text.toList, token.kind = kind ∧
    rejection.Spans text token token ∧ rejection.slice = String.ofList token.text
  number n := ∃ token ∈ tokenize text.toList, token.kind = .integer ∧
    rejection.Spans text token token ∧ IsNumeral rejection.slice.toList n
  qualifier group kind n := ∃ before first number after blanks,
    tokenize text.toList = before ++ first :: number :: after ∧
      EndsInGroup limits (before.map Token.symbol) group ∧ first.kind = kind ∧
      number.kind = .integer ∧ IsNumeral number.text n ∧ rejection.Spans text first number ∧
      blanks.all isSpacing ∧ rejection.slice = String.ofList (first.text ++ blanks ++ number.text)

/-- **What stands at a place among the symbols of a text stands in the text** where a rejection of
that place reports it. -/
theorem Place.evidence_shows (limits : Limits) (text : String) (place : Place) (cause : Cause) :
    (place.evidence limits ((tokenize text.toList).map Token.symbol)).Shows
      ((Rejection.ofExtent text.toList (place.extent text.toList (tokenize text.toList))
        cause).evidence limits text) where
  ending := by
    rintro last ⟨rfl, hlast⟩
    refine ⟨?_, ?_, ?_⟩
    · exact Text.byteLength_take_length text
    · rw [Rejection.ofExtent, Text.Extent.slice, Place.extent, Text.Extent.atEnd,
        List.take_length, List.drop_length]
    · rw [← hlast, List.getLast?_map, Option.map_map]
      rfl
  token := by
    rintro kind ⟨before, after, value, hall, rfl⟩
    obtain ⟨front, token, back, htokens, rfl, hsymbol, -⟩ := exists_append_of_map_symbol hall
    have hmem : token ∈ tokenize text.toList :=
      htokens ▸ List.mem_append_right _ List.mem_cons_self
    rw [List.length_map, extent_token htokens]
    refine ⟨token, hmem, congrArg Symbol.kind hsymbol, ⟨rfl, rfl⟩, ?_⟩
    rw [Rejection.ofExtent, (slice_extent_of_mem_tokenize hmem).1]
  number := by
    rintro n ⟨before, after, hall, rfl⟩
    obtain ⟨front, token, back, htokens, rfl, hsymbol, -⟩ := exists_append_of_map_symbol hall
    have hmem : token ∈ tokenize text.toList :=
      htokens ▸ List.mem_append_right _ List.mem_cons_self
    have hkind : token.kind = .integer := congrArg Symbol.kind hsymbol
    have hvalue : token.value = n := congrArg Symbol.value hsymbol
    rw [List.length_map, extent_token htokens]
    refine ⟨token, hmem, hkind, ⟨rfl, rfl⟩, ?_⟩
    rw [Rejection.ofExtent, String.toList_ofList, (slice_extent_of_mem_tokenize hmem).1, ← hvalue]
    exact isNumeral_of_mem_tokenize hmem hkind
  qualifier := by
    rintro group kind n ⟨before, after, value, hall, hgroup, rfl⟩
    obtain ⟨front, first, behind, htokens, rfl, hfirst, hbehind⟩ := exists_append_of_map_symbol hall
    obtain ⟨number, back, rfl, hnumber, -⟩ := List.map_eq_cons_iff.mp hbehind
    have hmem : number ∈ tokenize text.toList :=
      htokens ▸ List.mem_append_right _ (List.mem_cons_of_mem _ List.mem_cons_self)
    have hkind : number.kind = .integer := congrArg Symbol.kind hnumber
    have hvalue : number.value = n := congrArg Symbol.value hnumber
    obtain ⟨blanks, hblanks, hslice, -⟩ := exists_slice_of_tokenize_eq htokens
    rw [List.length_map, extent_tokens htokens]
    refine ⟨front, first, number, back, blanks, htokens, hgroup, congrArg Symbol.kind hfirst, hkind,
      hvalue ▸ isNumeral_of_mem_tokenize hmem hkind, ⟨rfl, rfl⟩, hblanks, ?_⟩
    rw [Rejection.ofExtent, hslice]

/-! ### Unknown characters -/

section

variable {limits : Limits} {text : String} {rejection : Rejection}
variable {token other first last : Token}

/-- The bytes that are reported tell at which token they begin and at which they end. -/
theorem Rejection.Spans.unique {first' last' : Token} (h : rejection.Spans text first last)
    (h' : rejection.Spans text first' last') (hfirst : first ∈ tokenize text.toList)
    (hlast : last ∈ tokenize text.toList) (hfirst' : first' ∈ tokenize text.toList)
    (hlast' : last' ∈ tokenize text.toList) :
    first.start = first'.start ∧ last.extent.stop = last'.extent.stop := by
  have hstart {token : Token} (hmem : token ∈ tokenize text.toList) :
      token.extent.start ≤ text.toList.length :=
    Nat.le_trans (Nat.le_add_right _ _) (slice_extent_of_mem_tokenize hmem).2
  exact ⟨Text.eq_of_byteLength_take (hstart hfirst) (hstart hfirst') (h.1.symm.trans h'.1),
    Text.eq_of_byteLength_take (slice_extent_of_mem_tokenize hlast).2
      (slice_extent_of_mem_tokenize hlast').2 (h.2.symm.trans h'.2)⟩

/-- There is one token at most at the bytes that are reported, so it has one kind. -/
theorem Rejection.Spans.kind_eq (h : rejection.Spans text token token)
    (h' : rejection.Spans text other other) (hmem : token ∈ tokenize text.toList)
    (hmem' : other ∈ tokenize text.toList) : token.kind = other.kind := by
  obtain ⟨hstart, hstop⟩ := h.unique h' hmem hmem hmem' hmem'
  have hextent : token.extent = other.extent := Text.Extent.mk.injEq .. ▸ ⟨hstart, hstop⟩
  rw [kind_eq_ofText hmem, kind_eq_ofText hmem', ← (slice_extent_of_mem_tokenize hmem).1, hextent,
    (slice_extent_of_mem_tokenize hmem').1]

/-- Where an unknown character stands, a rejection reports nothing else. -/
theorem Rejection.evidence_shows_unknown (hmem : token ∈ tokenize text.toList)
    (hspans : rejection.Spans text token token) (hkind : token.kind = .unknown) :
    (rejection.evidence limits text).Shows .ofUnknown where
  ending := by
    rintro last ⟨hend, -, -⟩
    obtain ⟨hslice, hstop⟩ := slice_extent_of_mem_tokenize hmem
    have hstart : token.extent.start = text.toList.length :=
      Text.eq_of_byteLength_take (Nat.le_trans (Nat.le_add_right _ _) hstop) (Nat.le_refl _)
        (hspans.1.symm.trans (hend.trans (Text.byteLength_take_length text).symm))
    have hpos := List.length_pos_of_ne_nil (ne_nil_of_mem_tokenize hmem)
    simp only [Token.extent] at hstart hstop
    omega
  token := by
    rintro kind ⟨other, hother, rfl, hspans', -⟩
    exact (hspans'.kind_eq hspans hother hmem).trans hkind
  number := by
    rintro n ⟨other, hother, hinteger, hspans', -⟩
    have heq := hspans'.kind_eq hspans hother hmem
    rw [hinteger, hkind] at heq
    cases heq
  qualifier := by
    rintro group kind n ⟨before, first, number, after, -, htokens, -, -, -, -, hspans', -⟩
    have hfirst : first ∈ tokenize text.toList :=
      htokens ▸ List.mem_append_right _ List.mem_cons_self
    have hnumber : number ∈ tokenize text.toList :=
      htokens ▸ List.mem_append_right _ (List.mem_cons_of_mem _ List.mem_cons_self)
    -- An unknown token is one character, and a qualifier with its number has two tokens.
    obtain ⟨hstart, hstop⟩ := hspans'.unique hspans hfirst hnumber hmem hmem
    obtain ⟨_, -, -, hplace⟩ := exists_slice_of_tokenize_eq htokens
    have hsingle := length_of_unknown hmem hkind
    have hpos := List.length_pos_of_ne_nil (ne_nil_of_mem_tokenize hfirst)
    have hpos' := List.length_pos_of_ne_nil (ne_nil_of_mem_tokenize hnumber)
    simp only [Token.extent, List.length_append] at hstop hplace
    omega

/-- **What is reported of a text is true of it.** All that the cause of a rejection says, of tokens,
of numbers and limits, of qualifiers and the groups that they are written behind, is true of what
stands in the text where the rejection reports it. The cause is an unknown character exactly if the
token that stands there is one. And the threshold that a reroll may have at most, which is one below
the sides, is reported as that number: there are two sides at least. -/
theorem parse_error_particulars (h : parse limits text = .error rejection) :
    rejection.cause.TrueOf limits (rejection.evidence limits text) ∧
    (rejection.cause = .unknownCharacter ↔ ∃ token ∈ tokenize text.toList,
      rejection.Spans text token token ∧ token.kind = .unknown) ∧
    ∀ threshold sides, rejection.cause = .rerollThreshold threshold sides →
      ∃ most : Nat, sides.toNat = most + 1 ∧ 1 ≤ most ∧ rejection.cause.message =
        "cannot reroll " ++ threshold.repr ++ " or lower on a d" ++ (most + 1).repr ++
          "; the threshold must be between 1 and " ++ most.repr := by
  obtain ⟨objection, hread, hrejection⟩ := parse_eq_error_iff.mp h
  have htrue : rejection.cause.TrueOf limits (rejection.evidence limits text) := by
    have hgrounded := Reader.grounded_of_start_read_eq_error hread
    exact hrejection ▸ hgrounded.mono (objection.place.evidence_shows limits text objection.cause)
  refine ⟨htrue, ⟨fun hcause => ?_, ?_⟩, fun threshold sides hcause => ?_⟩
  · rw [hcause] at htrue
    obtain ⟨token, hmem, hkind, hspans, -⟩ := htrue
    exact ⟨token, hmem, hspans, hkind⟩
  · rintro ⟨token, hmem, hspans, hkind⟩
    exact Cause.eq_unknownCharacter_of_trueOf
      (htrue.mono (Rejection.evidence_shows_unknown hmem hspans hkind))
  · rw [hcause] at htrue
    obtain ⟨group, -, -, htwo, -⟩ := htrue
    have hone : 1 ≤ sides := UInt32.le_iff_toNat_le.mpr (Nat.le_of_succ_le htwo)
    have hmost : sides.toNat = (sides - 1).toNat + 1 := by
      rw [UInt32.toNat_sub_of_le _ _ hone, UInt32.toNat_one]
      omega
    have hpos : 1 ≤ (sides - 1).toNat := by omega
    refine ⟨(sides - 1).toNat, hmost, hpos, ?_⟩
    rw [← hmost]
    exact congrArg Cause.message hcause

end

/-- A selection in the second group of a text that is beyond every word, a reroll of all faces of a
coin, and a character that is no notation. -/
theorem parse_error_particulars_of_selection_and_of_reroll :
    ∃ selection reroll wide : Rejection,
      parse {} "1d8 + 4d6 kh3 d 99999999999" = .error selection ∧
      parse {} "2d2!r7" = .error reroll ∧ parse {} "5 €" = .error wide ∧
      (∃ group kind which, (selection.evidence {} "1d8 + 4d6 kh3 d 99999999999").qualifier group
          kind 99999999999 ∧ WritesSelection kind which ∧ "dl" = which.letters ∧
        3 = keptThrough group.count.toNat group.qualifiers) ∧
      reroll.cause.message =
        "cannot reroll 7 or lower on a d2; the threshold must be between 1 and 1" ∧
      ∃ token ∈ tokenize "5 €".toList, wide.Spans "5 €" token token ∧ token.kind = .unknown := by
  have hselection : parse {} "1d8 + 4d6 kh3 d 99999999999" =
      .error ⟨.selectsAllDice "dl" 99999999999 3, 14, 14, 27, "d 99999999999"⟩ := by decide +kernel
  have hreroll : parse {} "2d2!r7" = .error ⟨.rerollThreshold 7 2, 4, 4, 6, "r7"⟩ := by
    decide +kernel
  have hwide : parse {} "5 €" = .error ⟨.unknownCharacter, 2, 2, 5, "€"⟩ := by decide +kernel
  obtain ⟨group, kind, which, hqualifier, hwhich, hletters, hkept, -⟩ :=
    (parse_error_particulars hselection).1
  obtain ⟨most, hmost, -, hmessage⟩ := (parse_error_particulars hreroll).2.2 7 2 rfl
  obtain rfl : 1 = most := Nat.succ.inj hmost
  exact ⟨_, _, _, hselection, hreroll, hwide, ⟨group, kind, which, hqualifier, hwhich, hletters,
    hkept⟩, hmessage, (parse_error_particulars hwide).2.1.mp rfl⟩

end Dicebox
