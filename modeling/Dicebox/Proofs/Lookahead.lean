import Dicebox.Proofs.TokenSpans

/-!
# How far the reader looks ahead

The reader objects to notation from left to right, and it needs no more than one token behind what
it objects to. So a text that is rejected for some of its tokens may be cut behind the next one,
and whatever is written behind a blank there, it is rejected for the same tokens and the same cause.

Two things are in the way of this. Symbols that are still to be read could be needed for the
objection: they are not, because a state remembers no token but the last one it has read, and so no
objection that is raised later is about an earlier token (`Objection.Recent`). And a text that is
cut could fall apart into other tokens: it does not, because where fewer characters follow, no more
words begin, and a blank joins nothing.

## Main definitions

* `Objection.Recent` — an objection is not about tokens that were read long before.

## Main results

* `Reader.recent_of_read_eq_error` — what is objected to in symbols is recent in front of them.
* `Reader.read_append_of_error` — an objection within some symbols stands whatever is behind them.
* `exists_append_of_tokenize_eq_append` — a text cut behind a token has the same tokens up to it.
* `parse_error_lookahead` — a rejection stands whatever is written behind the next token.
-/

namespace Dicebox

/-! ### How far back an objection reaches -/

/-- In front of a token, an objection is not about tokens that all lie further back than the last
one. -/
def Objection.Recent (index : Nat) (objection : Objection) : Prop :=
  ∀ first last, objection.place = .tokens first last → index ≤ last + 1

namespace Objection

variable {index : Nat}

/-- An objection to the token at hand or the one before it is recent. -/
theorem recent_onToken {i : Nat} (h : index ≤ i + 1) (cause : Cause) :
    (onToken i cause).Recent index := by
  intro first last hplace
  cases hplace
  exact h

/-- An objection to a stretch that ends at the token at hand is recent. -/
theorem recent_tokens {i : Nat} (cause : Cause) :
    Recent index ⟨cause, .tokens i index⟩ := by
  intro first last hplace
  cases hplace
  exact Nat.le_succ index

/-- An objection to the end is recent everywhere. -/
theorem recent_atEnd (cause : Cause) : Recent index ⟨cause, .atEnd⟩ :=
  nofun

/-- What is recent in front of a token is recent in front of those before it. -/
theorem Recent.mono {objection : Objection} {earlier : Nat} (h : objection.Recent index)
    (hle : earlier ≤ index) : objection.Recent earlier :=
  fun first last hplace => hle.trans (h first last hplace)

/-- An objection to a symbol because only others may stand there is recent. -/
theorem recent_unexpected (symbol : Symbol) (expected : List TokenKind) :
    (symbol.unexpected index expected).Recent index := by
  rw [Symbol.unexpected]
  split <;> exact recent_onToken (Nat.le_succ index) _

end Objection

namespace Reader

open Objection

variable {limits : Limits} {all : List Symbol} {index : Nat} {symbol : Symbol}
  {objection : Objection}

/-- What is objected to at the beginning of a term is recent. -/
theorem recent_beginTerm (h : beginTerm index symbol = .error objection) :
    objection.Recent index := by
  rw [beginTerm.eq_def] at h
  split at h
  · cases h
  · split at h
    · cases h
    · cases h
      exact recent_onToken (Nat.le_succ index) _
  · cases h
    exact recent_unexpected symbol _

/-- What is objected to behind a complete term is recent. -/
theorem recent_afterTerm {term : Term} (h : afterTerm term index symbol = .error objection) :
    objection.Recent index := by
  rw [afterTerm.eq_def] at h
  split at h
  · cases h
  · cases h
  · cases h
    exact recent_unexpected symbol _

/-- A number that is too large for a constant is the token before the one at hand. -/
theorem recent_constant {n i : Nat} (hi : index ≤ i + 1) (h : constant n i = .error objection) :
    objection.Recent index := by
  rw [constant] at h
  split at h
  · cases h
  · cases h
    exact recent_onToken hi _

/-- What is objected to behind a number is the number, or the token at hand. -/
theorem recent_afterNumber {n i : Nat} (hi : index ≤ i + 1)
    (h : afterNumber limits n i index symbol = .error objection) : objection.Recent index := by
  rw [afterNumber.eq_def] at h
  split at h
  · split at h
    · cases h
      exact recent_onToken hi _
    split at h
    · cases h
      exact recent_onToken hi _
    · cases h
  · cases hconstant : constant n i with
    | ok term =>
        rw [hconstant] at h
        exact recent_afterTerm h
    | error other =>
        rw [hconstant] at h
        cases h
        exact recent_constant hi hconstant

/-- What is objected to behind the `d` of a group is recent. -/
theorem recent_readSides {count : UInt32} {count_pos : 0 < count}
    (h : readSides limits count count_pos index symbol = .error objection) :
    objection.Recent index := by
  have hwith {sides : Nat}
      (h : readSides.withSides limits count count_pos index sides = .error objection) :
      objection.Recent index := by
    rw [readSides.withSides.eq_def] at h
    split at h
    · cases h
      exact recent_onToken (Nat.le_succ index) _
    · cases h
  rw [readSides.eq_def] at h
  split at h
  · exact hwith h
  · split at h
    · cases h
      exact recent_onToken (Nat.le_succ index) _
    split at h
    · cases h
      exact recent_onToken (Nat.le_succ index) _
    · exact hwith h
  · cases h
    exact recent_onToken (Nat.le_succ index) _
  · cases h
    exact recent_onToken (Nat.le_succ index) _

/-- What is objected to behind a group is recent. -/
theorem recent_afterGroup {group : DiceGroup} {kept : Nat}
    (h : afterGroup group kept index symbol = .error objection) : objection.Recent index := by
  rw [afterGroup.eq_def] at h
  split at h
  · cases h
  · exact recent_afterTerm h

/-- What is objected to behind the first token of a qualifier is recent. -/
theorem recent_afterMarker {group : DiceGroup} {kept i : Nat} {marker : Marker}
    (h : afterMarker group kept marker i index symbol = .error objection) :
    objection.Recent index := by
  rw [afterMarker.eq_def] at h
  split at h
  · split at h
    · cases h
      exact recent_onToken (Nat.le_succ index) _
    split at h
    · cases h
    · cases h
      exact recent_tokens _
  · split at h
    · exact recent_afterGroup h
    · cases h
      exact recent_unexpected symbol _

/-- What a step objects to is recent: no state keeps more than the last token. -/
theorem recent_step {reader : Reader} (hreader : reader.Remembers all index)
    (h : reader.step limits index symbol = .error objection) : objection.Recent index := by
  cases reader with
  | start | term => exact recent_beginTerm h
  | number n i => exact recent_afterNumber hreader.1.ge h
  | sides count count_pos => exact recent_readSides h
  | group g kept => exact recent_afterGroup h
  | marked g kept marker i => exact recent_afterMarker h

/-- What the end objects to is recent behind the last token. -/
theorem recent_finish {reader : Reader} (hreader : reader.Remembers all index)
    (h : reader.finish = .error objection) : objection.Recent index := by
  cases reader with
  | start | term | sides =>
      cases h
      exact recent_atEnd _
  | number n i =>
      cases hconstant : constant n i with
      | ok term =>
          rw [finish, hconstant] at h
          cases h
      | error other =>
          rw [finish, hconstant] at h
          cases h
          exact recent_constant hreader.1.ge hconstant
  | group => cases h
  | marked g kept marker i =>
      rw [finish] at h
      split at h
      · cases h
      · cases h
        exact recent_atEnd _

/-- What is objected to in symbols is recent in front of them: the states behind them remember only
later tokens. -/
theorem recent_of_read_eq_error {reader : Reader} {seen more : List Symbol}
    (hreader : reader.Remembers (seen ++ more) seen.length)
    (h : reader.read limits seen.length more = .error objection) :
    objection.Recent seen.length := by
  have hstep (before : List Symbol) (symbol : Symbol) (behind : List Symbol) (reader : Reader)
      (hall : seen ++ more = before ++ symbol :: behind)
      (hreader : reader.Remembers (seen ++ more) before.length ∧ seen.length ≤ before.length) :
      Keeps (fun before next => next.Remembers (seen ++ more) before.length ∧
        seen.length ≤ before.length) (Objection.Recent seen.length) (before ++ [symbol])
        (reader.step limits before.length symbol) := by
    obtain ⟨hreader, hle⟩ := hreader
    have hsymbol : (seen ++ more)[before.length]? = some symbol := by simp [hall]
    have hplaced : Placed (seen ++ more) before.length (reader.step limits before.length symbol) :=
      placed_step hreader hsymbol
    cases hmove : reader.step limits before.length symbol with
    | error other => exact (recent_step hreader hmove).mono hle
    | ok move =>
        obtain ⟨complete, next⟩ := move
        rw [hmove] at hplaced
        change next.Remembers (seen ++ more) (before ++ [symbol]).length ∧
          seen.length ≤ (before ++ [symbol]).length
        rw [List.length_append, List.length_singleton]
        exact ⟨hplaced, Nat.le_succ_of_le hle⟩
  refine post_of_read_eq_error hstep (fun _ _ hinv hfinish => ?_) rfl ⟨hreader, Nat.le_refl _⟩ h
  exact (recent_finish hinv.1 hfinish).mono hinv.2

/-- What is objected to within some symbols is objected to whatever is behind them. Induction on
these symbols: if the objection comes with a later symbol than the first, then it comes from the
state behind the first; and if it came behind all of them, it would not be about any but the
last. -/
theorem read_append_of_error {reader : Reader} {seen front rest : List Symbol}
    (hreader : reader.Remembers (seen ++ (front ++ rest)) seen.length)
    (h : reader.read limits seen.length (front ++ rest) = .error objection) {first last : Nat}
    (hplace : objection.place = .tokens first last)
    (hlast : last + 1 < (seen ++ front).length) (rest' : List Symbol) :
    reader.read limits seen.length (front ++ rest') = .error objection := by
  induction front generalizing reader seen with
  | nil =>
      have hrecent := recent_of_read_eq_error hreader h first last hplace
      rw [List.append_nil] at hlast
      exact absurd hlast (Nat.not_lt_of_le hrecent)
  | cons symbol front ih =>
      have hplaced : Placed (seen ++ symbol :: (front ++ rest)) seen.length
          (reader.step limits seen.length symbol) := placed_step hreader (by simp)
      rw [List.cons_append, read] at h ⊢
      cases hmove : reader.step limits seen.length symbol with
      | error other =>
          rw [hmove] at h
          exact h
      | ok move =>
          obtain ⟨complete, next⟩ := move
          rw [hmove] at h hplaced
          have hlength : seen.length + 1 = (seen ++ [symbol]).length := by
            rw [List.length_append, List.length_singleton]
          have hnext : next.Remembers ((seen ++ [symbol]) ++ (front ++ rest))
              (seen ++ [symbol]).length := by
            rw [List.append_assoc, ← hlength]
            exact hplaced
          rw [hlength] at h ⊢
          cases hread : next.read limits (seen ++ [symbol]).length (front ++ rest) with
          | ok terms =>
              simp only [bind, Except.bind, hread, pure, Except.pure] at h
              cases h
          | error other =>
              simp only [bind, Except.bind, hread] at h ⊢
              cases h
              rw [ih hnext hread (by simpa using hlast)]

end Reader

/-! ### Texts that begin alike -/

/-- Together the pieces of a text are the text. -/
theorem LongestCut.flatMap_text {text : List Char} {pieces : List Lexeme}
    (h : LongestCut text pieces) : pieces.flatMap Lexeme.text = text := by
  rw [← h.lexemes_eq, flatMap_text_lexemes]

/-- The first pieces of a text are those of their own characters: where fewer characters follow, no
more words begin. Induction on these pieces. -/
theorem LongestCut.of_append {text : List Char} {front back : List Lexeme}
    (h : LongestCut text (front ++ back)) : LongestCut (front.flatMap Lexeme.text) front := by
  induction front generalizing text with
  | nil => exact .nil
  | cons piece front ih =>
      have hbegins {text : List Char} (hcut : LongestCut text (front ++ back)) :
          front.flatMap Lexeme.text <+: text := by
        rw [← hcut.flatMap_text, List.flatMap_append]
        exact List.prefix_append _ _
      cases h with
      | spacing hspacing hcut => exact .spacing hspacing (ih hcut)
      | token hmatches hlongest hcut =>
          refine .token hmatches (fun other longer hother hlonger => ?_) (ih hcut)
          refine hlongest other longer hother (hlonger.trans ?_)
          exact (List.prefix_append_right_inj _).mpr (hbegins hcut)
      | unknown hspacing hword hcut =>
          refine .unknown hspacing (fun kind word hmatches hword' => ?_) (ih hcut)
          refine hword kind word hmatches (hword'.trans ?_)
          exact (List.prefix_append_right_inj [_]).mpr (hbegins hcut)

/-- The tokens among lexemes and others behind them. -/
theorem ofLexemes_append (start : Nat) (front back : List Lexeme) :
    Token.ofLexemes start (front ++ back) = Token.ofLexemes start front ++
      Token.ofLexemes (start + (front.flatMap Lexeme.text).length) back := by
  induction front generalizing start with
  | nil => rfl
  | cons piece front ih =>
      rw [List.flatMap_cons, List.length_append, ← Nat.add_assoc]
      cases piece with
      | spacing c => exact ih (start + 1)
      | token kind word => exact congrArg (_ :: ·) (ih (start + word.length))

/-- The tokens in front of one of the tokens among lexemes are those of the lexemes in front. -/
theorem exists_append_of_ofLexemes_eq_append {pieces : List Lexeme} {start : Nat}
    {front back : List Token} {next : Token}
    (h : Token.ofLexemes start pieces = front ++ next :: back) :
    ∃ before after, pieces = before ++ next.lexeme :: after ∧
      Token.ofLexemes start before = front ∧
      next.start = start + (before.flatMap Lexeme.text).length := by
  induction pieces generalizing start front with
  | nil => cases front <;> cases h
  | cons piece pieces ih =>
      cases piece with
      | spacing c =>
          obtain ⟨before, after, rfl, hfront, hstart⟩ := ih h
          refine ⟨.spacing c :: before, after, rfl, hfront, ?_⟩
          rw [hstart, List.flatMap_cons, List.length_append, ← Nat.add_assoc]
          rfl
      | token kind word =>
          cases front with
          | nil =>
              obtain ⟨rfl, -⟩ := List.cons.inj h
              exact ⟨[], pieces, rfl, rfl, rfl⟩
          | cons first front =>
              obtain ⟨rfl, hmore⟩ := List.cons.inj h
              obtain ⟨before, after, rfl, rfl, hstart⟩ := ih hmore
              refine ⟨.token kind word :: before, after, rfl, rfl, ?_⟩
              rw [hstart, List.flatMap_cons, List.length_append, ← Nat.add_assoc]
              rfl

/-- A text falls apart in front of a blank. -/
theorem lexemes_append_blank {blank : Char} (h : isSpacing blank) (text more : List Char) :
    lexemes (text ++ blank :: more) = lexemes text ++ .spacing blank :: lexemes more := by
  have hblank : lexemes (blank :: more) = .spacing blank :: lexemes more :=
    lexemes_blanks_append (show [blank].all isSpacing by simpa using h) more
  rw [lexemes_append, hblank]
  intro c first hfirst
  rw [hblank] at hfirst
  obtain rfl := Option.some.inj hfirst
  rfl

/-- A text that goes on with a blank behind one of its tokens has the same tokens up to this one. -/
theorem exists_append_of_tokenize_eq_append {text : List Char} {front back : List Token}
    {next : Token} (h : tokenize text = front ++ next :: back) :
    ∃ before after, text = before ++ after ∧ before.length = next.extent.stop ∧
      ∀ (blank : Char) (more : List Char), isSpacing blank →
        ∃ back', tokenize (before ++ blank :: more) = front ++ next :: back' := by
  obtain ⟨pieces, rest, hpieces, hfront, hstart⟩ := exists_append_of_ofLexemes_eq_append h
  rw [Nat.zero_add] at hstart
  rw [List.append_cons] at hpieces
  have hcut : lexemes ((pieces ++ [next.lexeme]).flatMap Lexeme.text) = pieces ++ [next.lexeme] :=
    (longestCut_iff.mpr hpieces).of_append.lexemes_eq
  refine ⟨(pieces ++ [next.lexeme]).flatMap Lexeme.text, rest.flatMap Lexeme.text, ?_, ?_, ?_⟩
  · rw [← List.flatMap_append, ← hpieces, flatMap_text_lexemes]
  · rw [List.flatMap_append, List.length_append, ← hstart, List.flatMap_singleton]
    rfl
  · intro blank more hblank
    refine ⟨Token.ofLexemes (next.start + next.text.length) (.spacing blank :: lexemes more), ?_⟩
    rw [tokenize, lexemes_append_blank hblank, hcut, List.append_assoc, ofLexemes_append, hfront,
      Nat.zero_add, ← hstart]
    rfl

/-! ### Rejections of texts that begin alike -/

/-- A rejection of a stretch depends on the text up to the end of the stretch. -/
theorem Rejection.ofExtent_append {before : List Char} {start stop : Nat}
    (hstart : start ≤ before.length) (hstop : stop ≤ before.length) (after : List Char)
    (cause : Cause) :
    Rejection.ofExtent (before ++ after) ⟨start, stop⟩ cause =
      Rejection.ofExtent before ⟨start, stop⟩ cause := by
  simp only [Rejection.ofExtent, Text.Extent.byteStart, Text.Extent.byteStop, Text.Extent.slice,
    List.take_append_of_le_length hstart, List.take_append_of_le_length hstop]

/-- An objection that is not to the end of a text is about tokens of it, the first of which is not
behind the last. -/
theorem Objection.Located.exists_tokens {tokens : List Token} {objection : Objection}
    (h : objection.Located (tokens.map Token.symbol)) (hplace : objection.place ≠ .atEnd) :
    ∃ (first last : Nat) (a b : Token), objection.place = .tokens first last ∧ first ≤ last ∧
      tokens[first]? = some a ∧ tokens[last]? = some b := by
  cases h with
  | atEnd => exact absurd rfl hplace
  | onToken hsymbol =>
      obtain ⟨token, htoken, -⟩ := exists_token_of_getElem?_map hsymbol
      exact ⟨_, _, token, token, rfl, Nat.le_refl _, htoken, htoken⟩
  | onQualifier hfirst _ hnumber =>
      obtain ⟨a, ha, -⟩ := exists_token_of_getElem?_map hfirst
      obtain ⟨b, hb, -⟩ := exists_token_of_getElem?_map hnumber
      exact ⟨_, _, a, b, rfl, Nat.le_succ _, ha, hb⟩

/-- A token of a text takes a byte at least. -/
theorem byteStart_lt_byteStop_of_mem_tokenize {text : String} {token : Token}
    (h : token ∈ tokenize text.toList) :
    token.extent.byteStart text.toList < token.extent.byteStop text.toList := by
  obtain ⟨before, after, -, htext, hstart, -⟩ := exists_lexemes_of_mem_tokenize h
  exact (Token.stands_of_eq_append (ne_nil_of_mem_tokenize h) htext hstart).byteStart_lt

/-- The tokens in front of a token end before it, and it ends before those behind it begin. -/
theorem pairwise_of_tokenize_eq_append {text : List Char} {front back : List Token} {next : Token}
    (h : tokenize text = front ++ next :: back) :
    (∀ token ∈ front, token.extent.stop ≤ next.extent.start) ∧
      ∀ token ∈ back, next.extent.stop ≤ token.extent.start := by
  have hordered := pairwise_ofLexemes 0 (lexemes text)
  rw [show Token.ofLexemes 0 (lexemes text) = tokenize text from rfl, h] at hordered
  obtain ⟨-, hbehind, hfront⟩ := List.pairwise_append.mp hordered
  exact ⟨fun token htoken => hfront token htoken next List.mem_cons_self,
    (List.pairwise_cons.mp hbehind).1⟩

/-- A token that ends in front of a token is among those in front of it. -/
theorem lt_length_of_byteStop_le {text : String} {front back : List Token} {next token : Token}
    (h : tokenize text.toList = front ++ next :: back) {i : Nat}
    (hi : (tokenize text.toList)[i]? = some token)
    (hle : token.extent.byteStop text.toList ≤ next.extent.byteStart text.toList) :
    i < front.length := by
  have hpos := byteStart_lt_byteStop_of_mem_tokenize (List.mem_of_getElem? hi)
  by_contra hge
  rw [h, List.getElem?_append_right (Nat.le_of_not_lt hge)] at hi
  rcases List.mem_cons.mp (List.mem_of_getElem? hi) with rfl | hmem
  · omega
  · -- The token would begin behind the next one.
    have hnext := byteStart_lt_byteStop_of_mem_tokenize
      (show next ∈ tokenize text.toList from h ▸ List.mem_append_cons_self)
    have hmono : next.extent.byteStop text.toList ≤ token.extent.byteStart text.toList :=
      Text.byteLength_take_mono text.toList ((pairwise_of_tokenize_eq_append h).2 token hmem)
    omega

/-- Tokens in front of another one are the same stretch of all texts that have the same characters
and the same tokens up to this one. -/
theorem Rejection.ofExtent_extent_congr {before after after' : List Char}
    {front back back' : List Token} {next : Token}
    (h : tokenize (before ++ after) = front ++ next :: back)
    (hlength : before.length = next.extent.stop) {first last : Nat} (hle : first ≤ last)
    (hlast : last < front.length) (cause : Cause) :
    Rejection.ofExtent (before ++ after')
        ((Place.tokens first last).extent (before ++ after') (front ++ next :: back')) cause =
      Rejection.ofExtent (before ++ after)
        ((Place.tokens first last).extent (before ++ after) (front ++ next :: back)) cause := by
  have hfirst : first < front.length := hle.trans_lt hlast
  have hstop (i : Nat) (hi : i < front.length) : front[i].extent.stop ≤ before.length := by
    have hend := (pairwise_of_tokenize_eq_append h).1 _ (List.getElem_mem hi)
    exact hlength ▸ hend.trans (Nat.le_add_right _ _)
  have hstart : front[first].extent.start ≤ before.length :=
    (Nat.le_add_right _ _).trans (hstop first hfirst)
  simp only [Place.extent, List.getElem?_append_left hfirst, List.getElem?_append_left hlast,
    List.getElem?_eq_getElem hfirst, List.getElem?_eq_getElem hlast]
  rw [ofExtent_append hstart (hstop last hlast), ofExtent_append hstart (hstop last hlast)]

/-- **How far the reader looks ahead.** Where a text is rejected for a piece of it that is not
empty, and a token is behind this piece, the text may be cut behind the first such token: with a
blank there and anything behind the blank, it is rejected for the same cause, at the same place and
for the same piece. So nothing that is written later hides an error or changes it. -/
theorem parse_error_lookahead {limits : Limits} {text : String} {rejection : Rejection}
    {next : Token} (h : parse limits text = .error rejection)
    (hspan : rejection.byteStart < rejection.byteStop)
    (hnext : (tokenize text.toList).find? (fun token =>
      rejection.byteStop ≤ token.extent.byteStart text.toList) = some next) :
    ∃ front back : String, text = front ++ back ∧
      front.utf8ByteSize = next.extent.byteStop text.toList ∧
      ∀ (blank : Char) (more : String), isSpacing blank →
        parse limits (front ++ String.singleton blank ++ more) = .error rejection := by
  obtain ⟨objection, hread, rfl⟩ := parse_eq_error_iff.mp h
  have hplace : objection.place ≠ .atEnd := by
    intro hplace
    rw [hplace] at hspan
    exact absurd hspan (Nat.lt_irrefl _)
  obtain ⟨first, last, a, b, hplace, hle, ha, hb⟩ :=
    (Reader.located_of_start_read_eq_error hread).exists_tokens hplace
  rw [hplace] at hnext ⊢
  obtain ⟨hbehind, front, back, htokens, -⟩ := List.find?_eq_some_iff_append.mp hnext
  have hlast : last < front.length := by
    simp only [Place.extent, ha, hb] at hbehind
    exact lt_length_of_byteStop_le htokens hb (of_decide_eq_true hbehind)
  obtain ⟨before, after, htext, hlength, hmore⟩ := exists_append_of_tokenize_eq_append htokens
  refine ⟨String.ofList before, String.ofList after, ?_, ?_, fun blank more hblank => ?_⟩
  · rw [← String.ofList_append, ← htext, String.ofList_toList]
  · rw [Text.Extent.byteStop, htext, ← hlength, List.take_left, Text.byteLength_eq_utf8ByteSize]
  · obtain ⟨back', htokens'⟩ := hmore blank more.toList hblank
    have htext' : (String.ofList before ++ String.singleton blank ++ more).toList =
        before ++ blank :: more.toList := by simp
    -- The reader objects to the same tokens, which are the same stretch of both texts.
    refine parse_eq_error_iff.mpr ⟨objection, ?_, ?_⟩
    · have hremembers : Reader.start.Remembers ([] ++ ((front ++ [next]).map Token.symbol ++
          back.map Token.symbol)) ([] : List Symbol).length := trivial
      have hlast' : last + 1 < ([] ++ (front ++ [next]).map Token.symbol).length := by simpa
      rw [htext', htokens', List.append_cons, List.map_append]
      rw [htokens, List.append_cons, List.map_append] at hread
      exact Reader.read_append_of_error hremembers hread hplace hlast' _
    · rw [htext', htokens', hplace, htokens, htext]
      exact Rejection.ofExtent_extent_congr (htext ▸ htokens) hlength hle hlast _

/-- A group has too many dice. No matter what is written behind its `d`, this is what it is
rejected for. -/
theorem parse_error_lookahead_of_tooManyDice :
    ∃ rejection : Rejection, parse {} "3 + 1001 d6 k9" = .error rejection ∧
      rejection.slice = "1001" ∧ ∃ front back : String, "3 + 1001 d6 k9" = front ++ back ∧
        front.utf8ByteSize = 10 ∧ ∀ (blank : Char) (more : String), isSpacing blank →
          parse {} (front ++ String.singleton blank ++ more) = .error rejection := by
  have hrejected :
      parse {} "3 + 1001 d6 k9" = .error ⟨.tooManyDice 1001 1000, 4, 4, 8, "1001"⟩ := by
    decide +kernel
  have hnext : (tokenize "3 + 1001 d6 k9".toList).find? (fun token =>
      8 ≤ token.extent.byteStart "3 + 1001 d6 k9".toList) = some ⟨.dice, ['d'], 9⟩ := by
    decide +kernel
  exact ⟨_, hrejected, rfl, parse_error_lookahead hrejected (by decide) hnext⟩

end Dicebox
