import Mathlib.Data.String.Basic
import Dicebox.Notation.Parse
import Dicebox.Proofs.Objections
import Dicebox.Proofs.TokenPlaces

/-!
# Where notation is rejected

A rejection reports a stretch of the notation three times: in characters, in bytes, and as the text
itself. All three come from one extent, which comes from the tokens that the reader objects to. This
module follows the extent both ways: to the text, which it cuts in three parts between characters,
and to the tokens, of which it covers none, one, or a qualifier with its number.

## Main definitions

* `Rejection.Reports` — a rejection reports a piece of a text, in characters and in bytes.

## Main results

* `Rejection.reports_ofExtent` — a rejection of the middle part of a text reports it.
* `Place.exists_append_of_located` — what a located objection is about is a piece of the text.
* `parse_error_place` — where notation is rejected, for all causes.
-/

namespace Dicebox

/-! ### Extents -/

namespace Text

/-- The bytes of characters are the bytes of their string. -/
theorem byteLength_eq_utf8ByteSize (cs : List Char) :
    byteLength cs = (String.ofList cs).utf8ByteSize := by
  rw [String.utf8ByteSize_ofList]
  induction cs with
  | nil => rfl
  | cons c cs ih => rw [byteLength, ih, String.utf8Len_cons, Nat.add_comm]

/-- The bytes of a string are those of its characters. -/
theorem byteLength_toList (s : String) : byteLength s.toList = s.utf8ByteSize := by
  rw [byteLength_eq_utf8ByteSize, String.ofList_toList]

/-- A stretch begins behind the bytes in front of it. -/
theorem Extent.byteStart_append (before slice after : List Char) (stop : Nat) :
    (⟨before.length, stop⟩ : Extent).byteStart (before ++ slice ++ after) =
      (String.ofList before).utf8ByteSize := by
  rw [byteStart, List.append_assoc, List.take_left, byteLength_eq_utf8ByteSize]

/-- A stretch ends behind the bytes in front of it and its own. -/
theorem Extent.byteStop_append (before slice after : List Char) (start : Nat) :
    (⟨start, (before ++ slice).length⟩ : Extent).byteStop (before ++ slice ++ after) =
      (String.ofList before ++ String.ofList slice).utf8ByteSize := by
  rw [byteStop, List.take_left, byteLength_eq_utf8ByteSize, String.ofList_append]

end Text

/-- A rejection reports a piece of a text: what it is, where it lies in characters, and where it
lies in bytes. Its ends are between characters of the text. -/
structure Rejection.Reports (rejection : Rejection) (text before after : String) : Prop where
  text_eq : text = before ++ rejection.slice ++ after
  position_eq : rejection.position = before.length
  byteStart_eq : rejection.byteStart = before.utf8ByteSize
  byteStop_eq : rejection.byteStop = (before ++ rejection.slice).utf8ByteSize

namespace Rejection

variable {rejection : Rejection} {text before after : String}

/-- The bytes of a piece are among those of the text. -/
theorem Reports.byteStart_le (h : rejection.Reports text before after) :
    rejection.byteStart ≤ rejection.byteStop ∧ rejection.byteStop ≤ text.utf8ByteSize := by
  rw [h.byteStart_eq, h.byteStop_eq, h.text_eq]
  simp only [String.utf8ByteSize_append]
  omega

/-- A piece has no bytes exactly if it is empty. -/
theorem Reports.byteStart_eq_byteStop_iff (h : rejection.Reports text before after) :
    rejection.byteStart = rejection.byteStop ↔ rejection.slice = "" := by
  rw [h.byteStart_eq, h.byteStop_eq, String.utf8ByteSize_append, ← String.utf8ByteSize_eq_zero_iff]
  omega

/-- A rejection of the middle part of a text reports it. -/
theorem reports_ofExtent (before slice after : List Char) (cause : Cause) :
    (Rejection.ofExtent (before ++ slice ++ after) ⟨before.length, (before ++ slice).length⟩
      cause).Reports (String.ofList (before ++ slice ++ after)) (String.ofList before)
        (String.ofList after) ∧
    (Rejection.ofExtent (before ++ slice ++ after) ⟨before.length, (before ++ slice).length⟩
      cause).slice = String.ofList slice := by
  have hslice : (Rejection.ofExtent (before ++ slice ++ after)
      ⟨before.length, (before ++ slice).length⟩ cause).slice = String.ofList slice := by
    rw [Rejection.ofExtent, Text.Extent.slice, List.take_left, List.drop_left]
  refine ⟨⟨?_, ?_, Text.Extent.byteStart_append before slice after _, ?_⟩, hslice⟩
  · rw [hslice, String.ofList_append, String.ofList_append]
  · rw [Rejection.ofExtent, String.length_ofList]
  · rw [hslice]
    exact Text.Extent.byteStop_append before slice after _

end Rejection

/-! ### Rejections -/

/-- A symbol of tokens belongs to a token of its kind. -/
theorem exists_token_of_getElem?_map {tokens : List Token} {i : Nat} {symbol : Symbol}
    (h : (tokens.map Token.symbol)[i]? = some symbol) :
    ∃ token, tokens[i]? = some token ∧ token.kind = symbol.kind := by
  rw [List.getElem?_map, Option.map_eq_some_iff] at h
  obtain ⟨token, htoken, rfl⟩ := h
  exact ⟨token, htoken, rfl⟩

/-- What a located objection is about is a piece of the text: nothing at its end, one token, or a
qualifier with the number right behind its first token. -/
theorem Place.exists_append_of_located {text : List Char} {objection : Objection}
    (h : objection.Located ((tokenize text).map Token.symbol)) :
    ∃ before slice after, text = before ++ slice ++ after ∧
      objection.place.extent text (tokenize text) = ⟨before.length, (before ++ slice).length⟩ ∧
      (slice = [] ↔ objection.place = .atEnd) ∧
      (objection.place = .atEnd → after = [] ∧ .theEnd ∈ objection.cause.stretches) ∧
      (objection.place ≠ .atEnd →
        (.token ∈ objection.cause.stretches ∧
          ∃ token ∈ tokenize text, token.start = before.length ∧ slice = token.text ∧
            (objection.cause = .unknownCharacter → token.text.length = 1)) ∨
        (.qualifier ∈ objection.cause.stretches ∧
          ∃ (i : Nat) (first number : Token) (blanks : List Char),
            (tokenize text)[i]? = some first ∧ (Marker.ofKind first.kind).isSome ∧
            (tokenize text)[i + 1]? = some number ∧ number.kind = .integer ∧
            first.start = before.length ∧ blanks.all isSpacing ∧
            slice = first.text ++ blanks ++ number.text)) := by
  cases h with
  | atEnd hcause =>
      refine ⟨text, [], [], by simp, ?_, iff_of_true rfl rfl, fun _ => ⟨rfl, hcause⟩, ?_⟩
      · rw [List.append_nil]
        rfl
      · exact fun hplace => absurd rfl hplace
  | @onToken i symbol cause hsymbol hcause hunknown =>
      obtain ⟨token, htoken, hkind⟩ := exists_token_of_getElem?_map hsymbol
      obtain ⟨hne, hsingle⟩ := wellMade_of_getElem?_tokenize htoken
      obtain ⟨before, after, htext, hstart⟩ := exists_append_of_getElem?_tokenize htoken
      refine ⟨before, token.text, after, htext, ?_, iff_of_false hne nofun, nofun, fun _ => ?_⟩
      · simp only [Objection.onToken, Place.extent, htoken, Token.extent, hstart,
          List.length_append]
      · refine .inl ⟨hcause, token, List.mem_of_getElem? htoken, hstart.symm, rfl, fun heq => ?_⟩
        exact hsingle (hkind.trans (hunknown heq))
  | @onQualifier i first number cause hfirst hmarker hnumber hinteger hcause =>
      obtain ⟨token, htoken, hkind⟩ := exists_token_of_getElem?_map hfirst
      obtain ⟨next, hnext, hkind'⟩ := exists_token_of_getElem?_map hnumber
      obtain ⟨before, blanks, after, htext, hstart, hplace, hblanks⟩ :=
        exists_append_of_getElem?_tokenize_succ htoken hnext
      have hne : token.text ++ blanks ++ next.text ≠ [] :=
        List.append_ne_nil_of_right_ne_nil _ (wellMade_of_getElem?_tokenize hnext).1
      refine ⟨before, _, after, htext, ?_, iff_of_false hne nofun, nofun, fun _ => ?_⟩
      · simp only [Place.extent, htoken, hnext, Token.extent, hplace, hstart, List.length_append,
          Nat.add_assoc]
      · rw [← hkind] at hmarker
        rw [← hkind'] at hinteger
        exact .inr ⟨hcause, i, token, next, blanks, htoken, hmarker, hnext, hinteger, hstart.symm,
          hblanks, rfl⟩

/-- Notation that is rejected is rejected for an objection of the reader, at the stretch of text
that the place of the objection covers. -/
theorem parse_eq_error_iff {limits : Limits} {text : String} {rejection : Rejection} :
    parse limits text = .error rejection ↔ ∃ objection : Objection,
      Reader.start.read limits 0 ((tokenize text.toList).map Token.symbol) = .error objection ∧
        .ofExtent text.toList (objection.place.extent text.toList (tokenize text.toList))
          objection.cause = rejection := by
  rw [parse, parseTerms]
  cases hread : Reader.start.read limits 0 ((tokenize text.toList).map Token.symbol) with
  | ok terms => simp [Except.map]
  | error objection => simp [Except.map]

/-- **Where notation is rejected.** A rejection reports a piece of the notation between two of its
characters, in characters, in bytes and as text. The piece is empty exactly when the reader objects
to the end of the notation, and then it lies there. Otherwise it is one token, a single character
if this is unknown, or a qualifier from its first token to the end of its number, which is the next
token. The cause says which of these it can be. -/
theorem parse_error_place {limits : Limits} {text : String} {rejection : Rejection}
    (h : parse limits text = .error rejection) :
    ∃ (objection : Objection) (before after : String),
      Reader.start.read limits 0 ((tokenize text.toList).map Token.symbol) = .error objection ∧
      rejection.cause = objection.cause ∧ rejection.Reports text before after ∧
      rejection.byteStart ≤ rejection.byteStop ∧ rejection.byteStop ≤ text.utf8ByteSize ∧
      (rejection.byteStart = rejection.byteStop ↔ objection.place = .atEnd) ∧
      (objection.place = .atEnd →
        rejection.byteStart = text.utf8ByteSize ∧ .theEnd ∈ rejection.cause.stretches) ∧
      (objection.place ≠ .atEnd →
        (.token ∈ rejection.cause.stretches ∧
          ∃ token ∈ tokenize text.toList, token.start = rejection.position ∧
            rejection.slice = String.ofList token.text ∧
            (rejection.cause = .unknownCharacter → token.text.length = 1)) ∨
        (.qualifier ∈ rejection.cause.stretches ∧
          ∃ (i : Nat) (first number : Token) (blanks : List Char),
            (tokenize text.toList)[i]? = some first ∧ (Marker.ofKind first.kind).isSome ∧
            (tokenize text.toList)[i + 1]? = some number ∧ number.kind = .integer ∧
            first.start = rejection.position ∧ blanks.all isSpacing ∧
            rejection.slice = String.ofList (first.text ++ blanks ++ number.text))) := by
  obtain ⟨objection, hread, hrejection⟩ := parse_eq_error_iff.mp h
  obtain ⟨before, slice, after, htext, hextent, hempty, hend, hinside⟩ :=
    Place.exists_append_of_located (Reader.located_of_start_read_eq_error hread)
  obtain ⟨hreports, hslice⟩ := Rejection.reports_ofExtent before slice after objection.cause
  rw [← htext, ← hextent, hrejection, String.ofList_toList] at hreports
  rw [← htext, ← hextent, hrejection] at hslice
  have hcause : rejection.cause = objection.cause := by
    rw [← hrejection]
    rfl
  have hposition : rejection.position = before.length := by
    rw [hreports.position_eq, String.length_ofList]
  obtain ⟨hle, hle'⟩ := hreports.byteStart_le
  refine ⟨objection, _, _, hread, hcause, hreports, hle, hle', ?_, fun hplace => ?_, ?_⟩
  · rw [hreports.byteStart_eq_byteStop_iff, hslice, String.ofList_eq_empty_iff, hempty]
  · obtain ⟨rfl, hstretch⟩ := hend hplace
    refine ⟨?_, hcause ▸ hstretch⟩
    obtain rfl := hempty.mpr hplace
    rw [hreports.byteStart_eq, hreports.text_eq, hslice]
    simp
  · intro hplace
    rw [hcause, hposition, hslice]
    rcases hinside hplace with
      ⟨hstretch, token, htoken, hstart, rfl, hunknown⟩ |
      ⟨hstretch, i, first, number, blanks, hfirst, hmarker, hnumber, hinteger, hstart, hblanks, rfl⟩
    · exact .inl ⟨hstretch, token, htoken, hstart, rfl, hunknown⟩
    · exact .inr ⟨hstretch, i, first, number, blanks, hfirst, hmarker, hnumber, hinteger, hstart,
        hblanks, rfl⟩

/-- A character that is no notation and takes three bytes, a selection of too many dice with a blank
before its number, and an end behind blanks. -/
theorem parse_error_place_of_wide_and_of_spaced :
    ∃ wide spaced ended : Rejection,
      parse {} "1 + €5" = .error wide ∧ parse {} "4d6 k 9-1" = .error spaced ∧
      parse {} "2d6 + " = .error ended ∧
      (∃ token ∈ tokenize "1 + €5".toList, token.text.length = 1 ∧
        wide.slice = String.ofList token.text ∧ wide.byteStop = wide.byteStart + 3) ∧
      (∃ (i : Nat) (first number : Token) (blanks : List Char), blanks.all isSpacing ∧
        (tokenize "4d6 k 9-1".toList)[i]? = some first ∧
        (tokenize "4d6 k 9-1".toList)[i + 1]? = some number ∧
        spaced.slice = String.ofList (first.text ++ blanks ++ number.text)) ∧
      ended.byteStart = "2d6 + ".utf8ByteSize ∧ ended.byteStop = "2d6 + ".utf8ByteSize := by
  have hwide : parse {} "1 + €5" = .error ⟨.unknownCharacter, 4, 4, 7, "€"⟩ := by decide +kernel
  have hspaced : parse {} "4d6 k 9-1" = .error ⟨.selectsAllDice "kh" 9 4, 4, 4, 7, "k 9"⟩ := by
    decide +kernel
  have hended : parse {} "2d6 + " = .error ⟨.unexpectedEnd [.integer, .dice], 6, 6, 6, ""⟩ := by
    decide +kernel
  refine ⟨_, _, _, hwide, hspaced, hended, ?_, ?_, ?_⟩
  · obtain ⟨_, _, _, -, -, -, -, -, hempty, -, hinside⟩ := parse_error_place hwide
    rcases hinside (mt hempty.mpr (by decide)) with
      ⟨-, token, htoken, -, hslice, hunknown⟩ | ⟨hstretch, -⟩
    · exact ⟨token, htoken, hunknown rfl, hslice, rfl⟩
    · exact absurd hstretch (by decide)
  · obtain ⟨_, _, _, -, -, -, -, -, hempty, -, hinside⟩ := parse_error_place hspaced
    rcases hinside (mt hempty.mpr (by decide)) with
      ⟨hstretch, -⟩ | ⟨-, i, first, number, blanks, hfirst, -, hnumber, -, -, hblanks, hslice⟩
    · exact absurd hstretch (by decide)
    · exact ⟨i, first, number, blanks, hblanks, hfirst, hnumber, hslice⟩
  · obtain ⟨_, _, _, -, -, -, -, -, hempty, hend, -⟩ := parse_error_place hended
    exact ⟨(hend (hempty.mp rfl)).1, (hend (hempty.mp rfl)).1⟩

end Dicebox
