import Dicebox.Proofs.ChatLines
import Dicebox.Proofs.Evidence
import Dicebox.Text.Blank

/-!
# Texts on one line

What is said about a roll has to fit a line of a chat, a log or a file. There are three such texts,
and each stays on one line for a reason of its own.

The message of a rejection quotes a piece of a text that can hold any character. It does so in
characters that have a form of their own, and all others in it are digits, letters and signs; so it
is *printable*, which is more than being on one line. The output of a roll repeats the notation, and
has a line feed only if that has one. The JSON form of a value may hold any text in its strings, but
no string is written with a line feed.

## Main definitions

* `OneLine` — a text has no line feed.
* `Printable` — every character of a text has a form of its own.

## Main results

* `printable_quoted` — a text between quotes is printable.
* `printable_message_of_parse` — the message of a rejection is printable.
* `Text.newline_notMem_of_mem_lines` — the lines of a text are lines.
* `Outcome.Legible.oneLine_output` — an output is on one line if its notation is.
* `Json.Whole.oneLine_text` — the text of a whole value is on one line.
-/

namespace Dicebox

/-- A text stays on one line: it has no line feed. -/
def OneLine (text : String) : Prop :=
  '\n' ∉ text.toList

/-- Every character of a text has a form of its own. -/
def Printable (text : String) : Prop :=
  ∀ c ∈ text.toList, Text.isUnprintable c = false

instance (text : String) : Decidable (Printable text) :=
  decidable_of_iff (text.toList.all fun c => !Text.isUnprintable c) (by simp [Printable])

/-- A printable text stays on one line. -/
theorem Printable.oneLine {text : String} (h : Printable text) : OneLine text :=
  fun hmem => absurd (h '\n' hmem) (by decide +kernel)

/-- Texts are printable together exactly when each of them is. -/
@[simp] theorem printable_append_iff {text more : String} :
    Printable (text ++ more) ↔ Printable text ∧ Printable more := by
  rw [Printable, String.toList_append]
  exact List.forall_mem_append

/-! ### Quoted texts -/

/-- Hexadecimal digits are printable. -/
theorem isUnprintable_of_mem_toDigits {n : Nat} {c : Char} (h : c ∈ Nat.toDigits 16 n) :
    Text.isUnprintable c = false := by
  have hdigit : ∀ d < 16, Text.isUnprintable (Nat.digitChar d) = false := by decide +kernel
  induction n using Nat.strongRecOn with
  | ind n ih =>
      by_cases hn : n < 16
      · rw [Nat.toDigits_of_lt_base hn, List.mem_singleton] at h
        exact h ▸ hdigit n hn
      · rw [Nat.toDigits_of_base_le (by decide) (by omega), List.mem_append,
          List.mem_singleton] at h
        rcases h with h | rfl
        · exact ih (n / 16) (by omega) h
        · exact hdigit _ (Nat.mod_lt n (by decide))

/-- However a character is written between quotes, it is printable. -/
theorem printable_escaped (c : Char) : Printable (String.ofList (Text.escaped c)) := by
  rw [Text.escaped]
  split_ifs with hmark hzero htab hreturn hfeed hcode
  · rcases hmark with rfl | rfl <;> decide +kernel
  · decide +kernel
  · decide +kernel
  · decide +kernel
  · decide +kernel
  · have hcode : Printable (String.ofList (Nat.toDigits 16 c.toNat)) := by
      rw [Printable, String.toList_ofList]
      exact fun d hd => isUnprintable_of_mem_toDigits hd
    simp only [String.ofList_append, printable_append_iff, hcode]
    decide +kernel
  · rw [Printable, String.toList_ofList, List.forall_mem_singleton]
    exact Bool.eq_false_iff.mpr hcode

/-- A text between quotes is printable, whatever the text. -/
@[simp] theorem printable_quoted (s : String) : Printable (Text.quoted s) := by
  have hescaped : Printable (String.ofList (s.toList.flatMap Text.escaped)) := by
    rw [Printable, String.toList_ofList]
    intro d hd
    obtain ⟨c, -, hc⟩ := List.mem_flatMap.mp hd
    exact printable_escaped c d (by rwa [String.toList_ofList])
  rw [Text.quoted, ← List.singleton_append]
  simp only [String.ofList_append, printable_append_iff, hescaped]
  decide +kernel

/-! ### Messages -/

/-- A number is printable. -/
@[simp] theorem printable_repr (n : Nat) : Printable n.repr := by
  intro c hc
  obtain ⟨hlow, hhigh⟩ := toNat_of_isDigit (isDigit_of_mem_repr hc)
  exact if_pos ⟨by omega, by omega⟩

/-- What messages call a kind of token is printable. -/
@[simp] theorem printable_label (kind : TokenKind) : Printable kind.label := by
  cases kind <;> decide +kernel

/-- The letters of a selection are printable. -/
@[simp] theorem printable_letters (which : Selection) : Printable which.letters := by
  cases which <;> decide +kernel

/-- The lists of tokens in messages are printable. -/
@[simp] theorem printable_listExpected (expected : List TokenKind) :
    Printable (listExpected expected) := by
  have hserial (expected : List TokenKind) : Printable (listExpected.serial expected) := by
    fun_induction listExpected.serial expected with
    | case1 => decide +kernel
    | case2 a => exact printable_label a
    | case3 a b =>
        simp only [printable_append_iff, printable_label]
        decide +kernel
    | case4 a more _ _ ih =>
        simp only [printable_append_iff, printable_label, ih]
        decide +kernel
  rw [listExpected.eq_def]
  split
  · simp only [printable_append_iff, printable_label]
    decide +kernel
  · exact hserial expected

/-- What is reported of a cause is printable, if the cause is true of anything: then the letters in
it are those of a selection. -/
theorem Cause.printable_message {limits : Limits} {evidence : Evidence} {cause : Cause}
    (h : cause.TrueOf limits evidence) : Printable cause.message := by
  rw [message.eq_def]
  cases cause with
  | nothingToRoll | unknownCharacter | missingSides | numberTooLarge | noDice => decide +kernel
  | unexpected =>
      simp only [printable_append_iff, printable_label, printable_listExpected]
      decide +kernel
  | unexpectedEnd =>
      simp only [printable_append_iff, printable_listExpected]
      decide +kernel
  | tooFewSides | tooManyDice | tooManySides | rerollThreshold | explodeThreshold =>
      simp only [printable_append_iff, printable_repr]
      decide +kernel
  | emptySelection qualifier =>
      obtain ⟨_, _, which, -, -, rfl⟩ := h
      simp only [Qualifier.text, printable_append_iff, printable_letters, printable_repr]
      decide +kernel
  | selectsAllDice letters count kept =>
      obtain ⟨_, _, which, -, -, rfl, -⟩ := h
      simp only [printable_append_iff, printable_letters, printable_repr]
      decide +kernel

/-- **Every rejection is reported in printable characters**, whatever is in the text. -/
theorem printable_message_of_parse {limits : Limits} {text : String} {rejection : Rejection}
    (h : parse limits text = .error rejection) : Printable rejection.message := by
  obtain ⟨objection, hread, hrejection⟩ := parse_eq_error_iff.mp h
  have hcause : Printable rejection.cause.message := by
    rw [← hrejection]
    exact Cause.printable_message (Reader.grounded_of_start_read_eq_error hread)
  delta Rejection.message
  simp only [printable_append_iff, printable_repr, printable_quoted, hcause]
  decide +kernel

/-! ### Lines of input -/

namespace Text

/-- No line of a text has a line feed. -/
theorem newline_notMem_of_mem_lines {text line : List Char} (h : line ∈ lines text) :
    '\n' ∉ line := by
  induction text generalizing line with
  | nil => cases h
  | cons c text ih =>
      rw [lines] at h
      split at h
      · rcases List.mem_cons.mp h with rfl | h
        · exact List.not_mem_nil
        · exact ih h
      · next hc =>
          have hfirst {first : List Char} (hmem : '\n' ∉ first) : '\n' ∉ c :: first :=
            List.not_mem_cons_of_ne_of_not_mem (Ne.symm hc) hmem
          split at h
          · rw [List.mem_singleton.mp h]
            exact hfirst List.not_mem_nil
          · next first more hlines =>
              rw [hlines] at ih
              rcases List.mem_cons.mp h with rfl | h
              · exact hfirst (ih List.mem_cons_self)
              · exact ih (List.mem_cons_of_mem _ h)

/-- Stripping a text adds no character. -/
theorem strip_subset (text : List Char) : strip text ⊆ text := by
  intro c hc
  have hback := List.mem_reverse.mp hc
  have hfront := List.mem_reverse.mp ((List.dropWhile_suffix _).subset hback)
  exact (List.dropWhile_suffix _).subset hfront

end Text

/-! ### Outputs -/

/-- A number has no line feed. -/
theorem newline_notMem_repr (n : Nat) : '\n' ∉ n.repr.toList :=
  fun h => absurd (isDigit_of_mem_repr h) (by decide)

/-- An integer has no line feed. -/
theorem newline_notMem_repr_int (n : Int) : '\n' ∉ n.repr.toList := by
  cases n with
  | ofNat n => exact newline_notMem_repr n
  | negSucc n =>
      rw [Int.repr, String.toList_append]
      refine List.not_mem_append ?_ (newline_notMem_repr _)
      decide

/-- The output of a legible outcome stays on one line if its notation does. -/
theorem Outcome.Legible.oneLine_output {outcome : Outcome} (h : outcome.Legible)
    (hwritten : OneLine outcome.written) : OneLine outcome.output := by
  have hrolls : '\n' ∉ shownRolls outcome.rolls := by
    intro hc
    rcases mem_shownRolls hc with hc | hc | hc <;> cases hc
  have hconstants : '\n' ∉ outcome.modifiers.total.signedText.toList := by
    rw [Amount.signedText, Text.toList_signed]
    refine List.not_mem_cons_of_ne_of_not_mem ?_ (newline_notMem_repr _)
    split <;> decide
  have htotal : '\n' ∉ outcome.total.text.toList := newline_notMem_repr_int _
  rw [OneLine] at hwritten ⊢
  rw [h.output_eq, toList_render]
  simp [hwritten, hrolls, hconstants, htotal]

namespace Json

/-- No character is written with a line feed inside a string. -/
theorem newline_notMem_escaped (c : Char) : '\n' ∉ escaped c := by
  rw [escaped]
  split_ifs with hmark hb hf hn hr ht hcode
  · rcases hmark with rfl | rfl <;> decide
  · decide
  · decide
  · decide
  · decide
  · decide
  · have hdigit : ∀ d < 16, Nat.digitChar d ≠ '\n' := by decide
    simp only [List.mem_cons, List.not_mem_nil, or_false, not_or]
    refine ⟨by decide, by decide, by decide, by decide, ?_, ?_⟩
    · exact (hdigit _ (by omega)).symm
    · exact (hdigit _ (by omega)).symm
  · exact fun h => hn (List.mem_singleton.mp h).symm

/-- No string has a line feed between its quotes. -/
theorem newline_notMem_stringChars (s : String) : '\n' ∉ stringChars s := by
  rw [stringChars, List.mem_append, List.mem_cons]
  rintro ((h | h) | h)
  · cases h
  · obtain ⟨c, -, hc⟩ := List.mem_flatMap.mp h
    exact newline_notMem_escaped c hc
  · cases List.mem_singleton.mp h

/-- Items without a line feed have none together. -/
theorem newline_notMem_itemChars {items : List Json} (h : ∀ item ∈ items, '\n' ∉ item.chars) :
    '\n' ∉ itemChars items := by
  induction items with
  | nil => simp [itemChars]
  | cons item more ih =>
      obtain ⟨hitem, hmore⟩ := List.forall_mem_cons.mp h
      by_cases hlast : more = []
      · subst hlast
        simp [itemChars, hitem]
      · simp [itemChars_cons item hlast, hitem, ih hmore]

/-- Members whose values have no line feed have none together. -/
theorem newline_notMem_memberChars {members : List (String × Json)}
    (h : ∀ member ∈ members, '\n' ∉ member.2.chars) : '\n' ∉ memberChars members := by
  induction members with
  | nil => simp [memberChars]
  | cons member more ih =>
      obtain ⟨key, value⟩ := member
      obtain ⟨hvalue, hmore⟩ := List.forall_mem_cons.mp h
      have hkey := newline_notMem_stringChars key
      by_cases hlast : more = []
      · subst hlast
        simp [memberChars, hkey, hvalue]
      · simp [memberChars, hkey, hvalue, ih hmore]

/-- The text of a whole value stays on one line, whatever the strings in it. -/
theorem Whole.oneLine_text {value : Json} (h : Whole value) : OneLine value.text := by
  rw [OneLine, text, String.toList_ofList]
  induction h with
  | null => simp [chars]
  | bool b => cases b <;> simp [chars]
  | int n => exact newline_notMem_repr_int n
  | str s => exact newline_notMem_stringChars s
  | arr _ ih => simp [chars, newline_notMem_itemChars ih]
  | obj _ ih => simp [chars, newline_notMem_memberChars ih]

end Json

end Dicebox
