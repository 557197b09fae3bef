import Mathlib.Data.List.Basic
import Dicebox.Json.Reader
import Dicebox.Json.Writer

/-!
# Reading back written JSON

The writer and the reader of JSON are two functions over the whole format. What the writer makes of
a value, the reader takes off the front of any text that goes on with a comma or a closing bracket,
or does not go on; so a value is read back inside another one exactly as it is read back alone.

A number with a fraction or an exponent is kept as it was written, and a value may hold any text in
its place. The values read back are those without such numbers.

The reader is bounded by a number of steps. The text of a value is longer than the text of a value
inside it, so the length of the text is enough, and this is what the induction carries along.

## Main definitions

* `Whole` — the values whose numbers are all integers.
* `EndsValue` — what may stand behind a value.
* `ReadsBack` — a value is read off the front of a text that begins with its own.

## Main results

* `readString_flatMap_escaped` — escaping is undone, whatever the characters.
* `readNumber_repr` — an integer is read back.
* `readsBack_arr`, `readsBack_obj` — what is made of values that are read back is read back.
* `ofText?_text` — whole values are read back from their texts.
-/

namespace Dicebox.Json

variable {rest more left : List Char}

/-! ### Strings -/

/-- A hexadecimal digit is read back. -/
theorem hexDigit?_digitChar : ∀ n < 16, hexDigit? (Nat.digitChar n) = some n := by
  decide

/-- The four digits that a control character is written with are read back. -/
theorem hex4?_of_lt {n : Nat} (h : n < 0x20) :
    hex4? '0' '0' (Nat.digitChar (n / 16)) (Nat.digitChar (n % 16)) = some n := by
  have hzero : hexDigit? '0' = some 0 := by decide
  have hhigh := hexDigit?_digitChar (n / 16) (by omega)
  have hlow := hexDigit?_digitChar (n % 16) (by omega)
  simp only [hex4?, hzero, hhigh, hlow, Option.bind_eq_bind, Option.bind_some, Option.pure_def]
  congr 1
  omega

/-- A character is the one with its code point. -/
theorem charOfNat?_toNat (c : Char) : charOfNat? c.toNat = some c :=
  dif_pos c.valid

/-- A backslash and a letter are read as the character that the letter names. -/
theorem readString_letter {letter c : Char} (hletter : unescaped? letter = some c)
    (h : readString rest = some (more, left)) :
    readString ('\\' :: letter :: rest) = some (c :: more, left) := by
  have hu : letter ≠ 'u' := by
    rintro rfl
    cases hletter
  rw [readString, hletter, h]
  · rfl
  · exact fun _ _ _ _ _ heq _ => hu heq

/-- A control character is read from its code point. -/
theorem readString_code {c : Char} (hc : c.toNat < 0x20)
    (h : readString rest = some (more, left)) :
    readString ('\\' :: 'u' :: '0' :: '0' :: Nat.digitChar (c.toNat / 16) ::
      Nat.digitChar (c.toNat % 16) :: rest) = some (c :: more, left) := by
  rw [readString, hex4?_of_lt hc, Option.bind_eq_bind, Option.bind_some, charOfNat?_toNat, h]
  rfl

/-- Any other character stands for itself. -/
theorem readString_raw {c : Char} (hquote : c ≠ '\"') (hslash : c ≠ '\\') (hc : ¬ c.toNat < 0x20)
    (h : readString rest = some (more, left)) :
    readString (c :: rest) = some (c :: more, left) := by
  rw [readString, if_neg hc, h]
  · rfl
  · exact hquote
  · exact fun _ _ _ _ _ heq _ => hslash heq
  · exact fun _ _ heq _ => hslash heq

/-- However a character is written, it is read back in front of the rest of its string. -/
theorem readString_escaped (c : Char) (h : readString rest = some (more, left)) :
    readString (escaped c ++ rest) = some (c :: more, left) := by
  rw [escaped]
  split_ifs with hmark hb hf hn hr ht hcode
  · rcases hmark with rfl | rfl
    · exact readString_letter rfl h
    · exact readString_letter rfl h
  · exact readString_letter (hb ▸ rfl) h
  · exact readString_letter (hf ▸ rfl) h
  · exact readString_letter (hn ▸ rfl) h
  · exact readString_letter (hr ▸ rfl) h
  · exact readString_letter (ht ▸ rfl) h
  · exact readString_code hcode h
  · obtain ⟨hquote, hslash⟩ := not_or.mp hmark
    exact readString_raw hquote hslash hcode h

/-- The characters of a string are read back up to its closing quote. -/
theorem readString_flatMap_escaped (cs rest : List Char) :
    readString (cs.flatMap escaped ++ '\"' :: rest) = some (cs, rest) := by
  induction cs with
  | nil => rfl
  | cons c cs ih =>
      rw [List.flatMap_cons, List.append_assoc]
      exact readString_escaped c ih

/-- A string in front of a text, with its opening quote apart. -/
theorem stringChars_append (s : String) (rest : List Char) :
    stringChars s ++ rest = '\"' :: (s.toList.flatMap escaped ++ '\"' :: rest) := by
  rw [stringChars, List.cons_append, List.cons_append, List.append_assoc, List.singleton_append]

/-! ### Numbers -/

/-- What may stand behind a value: a comma or a closing bracket inside another value, and nothing
behind the outermost one. -/
def EndsValue (rest : List Char) : Prop :=
  ∀ c ∈ rest.head?, c = ',' ∨ c = ']' ∨ c = '\x7d'

theorem endsValue_nil : EndsValue [] :=
  nofun

theorem endsValue_cons {c : Char} (h : c = ',' ∨ c = ']' ∨ c = '\x7d') (more : List Char) :
    EndsValue (c :: more) := by
  intro c' hc'
  rwa [← Option.some.inj hc']

/-- The digits of a number are digits. -/
theorem isDigit_of_mem_toDigits {n : Nat} {c : Char} (h : c ∈ Nat.toDigits 10 n) : c.isDigit :=
  Nat.isDigit_of_mem_toDigits (by decide) (by decide) h

/-- A number in decimal begins with a digit. -/
theorem exists_toDigits_eq_cons (n : Nat) :
    ∃ c more, Nat.toDigits 10 n = c :: more ∧ c.isDigit := by
  have hne : Nat.toDigits 10 n ≠ [] := Nat.toDigits_ne_nil
  obtain ⟨c, more, hcons⟩ := List.exists_cons_of_ne_nil hne
  exact ⟨c, more, hcons, isDigit_of_mem_toDigits (hcons ▸ List.mem_cons_self)⟩

/-- A positive number in decimal has no leading zero. -/
theorem head?_toDigits_ne_zero {n : Nat} (h : 0 < n) : (Nat.toDigits 10 n).head? ≠ some '0' := by
  induction n using Nat.strongRecOn with
  | ind n ih =>
      by_cases hten : n < 10
      · have hdigit : ∀ d < 10, 0 < d → Nat.digitChar d ≠ '0' := by decide
        rw [Nat.toDigits_of_lt_base hten, List.head?_singleton]
        exact fun heq => hdigit n hten h (Option.some.inj heq)
      · have hmore := ih (n / 10) (by omega) (by omega)
        rwa [Nat.toDigits_of_base_le (by decide) (by omega),
          List.head?_append_of_ne_nil _ Nat.toDigits_ne_nil]

/-- The digits of a number are read off the front. -/
theorem readDigits_toDigits (n : Nat) (h : EndsValue rest) :
    readDigits (Nat.toDigits 10 n ++ rest) = some (Nat.toDigits 10 n, rest) := by
  have hdigits : ∀ c ∈ Nat.toDigits 10 n, c.isDigit := fun c => isDigit_of_mem_toDigits
  have hrest : rest.takeWhile Char.isDigit = [] ∧ rest.dropWhile Char.isDigit = rest := by
    cases rest with
    | nil => exact ⟨rfl, rfl⟩
    | cons c more =>
        have hc : ¬ c.isDigit := by rcases h c rfl with rfl | rfl | rfl <;> decide
        exact ⟨List.takeWhile_cons_of_neg hc, List.dropWhile_cons_of_neg hc⟩
  rw [readDigits, List.takeWhile_append_of_pos hdigits, List.dropWhile_append_of_pos hdigits,
    hrest.1, hrest.2, List.append_nil]
  split
  · next hnil => exact absurd hnil Nat.toDigits_ne_nil
  · rfl

/-- The digits of a number are those of a whole number: they have no needless zero in front. -/
theorem readWhole_toDigits (n : Nat) (h : EndsValue rest) :
    readWhole (Nat.toDigits 10 n ++ rest) = some (Nat.toDigits 10 n, rest) := by
  have hwhole : ¬ ((Nat.toDigits 10 n).length > 1 ∧ (Nat.toDigits 10 n).head? = some '0') := by
    rintro ⟨hlength, hzero⟩
    by_cases hn : n < 10
    · rw [Nat.toDigits_of_lt_base hn] at hlength
      exact Nat.lt_irrefl 1 hlength
    · exact head?_toDigits_ne_zero (by omega) hzero
  rw [readWhole, readDigits_toDigits n h]
  exact if_neg hwhole

/-- Where a value ends, there is no fraction. -/
theorem readFraction_of_endsValue (h : EndsValue rest) : readFraction rest = some ([], rest) := by
  rw [readFraction.eq_def]
  split
  · have hpoint := h '.' rfl
    simp at hpoint
  · rfl

/-- Where a value ends, there is no exponent. -/
theorem readExponent_of_endsValue (h : EndsValue rest) : readExponent rest = some ([], rest) := by
  cases rest with
  | nil => rfl
  | cons c more =>
      have hc : ¬ (c = 'e' ∨ c = 'E') := by
        rcases h c rfl with rfl | rfl | rfl <;> decide
      rw [readExponent.eq_def]
      exact if_neg hc

/-- The digits of a number are read back behind its sign. There is no negative zero. -/
theorem readUnsigned_toDigits (negative : Bool) {n : Nat} (hzero : negative → n ≠ 0)
    (h : EndsValue rest) :
    readUnsigned negative (Nat.toDigits 10 n ++ rest) =
      some (int (if negative then -n else n), rest) := by
  have hparts : numberOfParts negative (Nat.toDigits 10 n) [] [] =
      int (if negative then -n else n) := by
    simp only [numberOfParts, Nat.ofDigitChars_ten_toDigits]
    rw [if_pos]
    cases negative with
    | false => rfl
    | true => simpa using hzero rfl
  simp only [readUnsigned, readWhole_toDigits n h, readFraction_of_endsValue h,
    readExponent_of_endsValue h, Option.bind_eq_bind, Option.bind_some, hparts, Option.pure_def]

/-- An integer in decimal begins with a sign or a digit. -/
theorem exists_repr_eq_cons (n : Int) :
    ∃ c more, n.repr.toList = c :: more ∧ (c = '-' ∨ c.isDigit) := by
  cases n with
  | ofNat n =>
      obtain ⟨c, more, hcons, hdigit⟩ := exists_toDigits_eq_cons n
      exact ⟨c, more, Nat.toList_repr.trans hcons, .inr hdigit⟩
  | negSucc n => exact ⟨'-', (n + 1).repr.toList, String.toList_append, .inl rfl⟩

/-- An integer is read back. -/
theorem readNumber_repr (n : Int) (h : EndsValue rest) :
    readNumber (n.repr.toList ++ rest) = some (int n, rest) := by
  cases n with
  | ofNat n =>
      obtain ⟨c, more, hcons, hdigit⟩ := exists_toDigits_eq_cons n
      have hsign : c ≠ '-' := by
        rintro rfl
        cases hdigit
      have hread : readUnsigned false (Nat.toDigits 10 n ++ rest) = some (int n, rest) :=
        readUnsigned_toDigits false nofun h
      rw [Int.repr, Nat.toList_repr]
      rw [hcons] at hread ⊢
      rw [List.cons_append, readNumber]
      · exact hread
      · exact fun _ heq => hsign (List.cons.inj heq).1
  | negSucc n =>
      have hread := readUnsigned_toDigits true (fun _ => Nat.succ_ne_zero n) h
      rw [Int.repr, String.toList_append, Nat.toList_repr]
      exact hread

/-! ### The front of a value -/

/-- A character that can stand in front of a value: no blank, and not the bracket that closes an
array without items. -/
def Fronts (c : Char) : Prop :=
  c ∉ [' ', '\t', '\n', '\r', ']']

instance (c : Char) : Decidable (Fronts c) :=
  inferInstanceAs (Decidable (c ∉ _))

/-- No blank stands in front of a value. -/
theorem skipSpace_cons {c : Char} (hc : Fronts c) (rest : List Char) :
    skipSpace (c :: rest) = c :: rest := by
  simp only [Fronts, List.mem_cons, not_or] at hc
  rw [skipSpace, List.dropWhile_cons_of_neg]
  simp [hc]

/-- The sign or digit of a number is no other character. -/
theorem ne_of_number {c letter : Char} (hc : c = '-' ∨ c.isDigit)
    (hletter : letter ≠ '-' ∧ letter.isDigit = false) : c ≠ letter := by
  rintro rfl
  exact hc.elim hletter.1 (Bool.eq_false_iff.mp hletter.2)

/-- A number can stand in front of a value. -/
theorem fronts_of_number {c : Char} (hc : c = '-' ∨ c.isDigit) : Fronts c := by
  have hothers : ∀ letter ∈ [' ', '\t', '\n', '\r', ']'],
      letter ≠ '-' ∧ letter.isDigit = false := by simp
  exact fun hmem => ne_of_number hc (hothers c hmem) rfl

/-- A value that begins with a sign or a digit is a number. -/
theorem readValue_of_number {c : Char} (hc : c = '-' ∨ c.isDigit) (steps : Nat) :
    readValue (steps + 1) (c :: rest) = readNumber (c :: rest) := by
  rw [readValue, skipSpace_cons (fronts_of_number hc)]
  split
  case h_7 => rfl
  all_goals
    next heq => exact absurd (List.cons.inj heq).1 (ne_of_number hc (by decide))

/-! ### Values -/

/-- A value is taken off the front of a text that begins with its own text and then ends it, in at
most as many steps as its text is long, and one. -/
structure ReadsBack (value : Json) : Prop where
  front : ∃ c more, value.chars = c :: more ∧ Fronts c
  read {steps : Nat} {rest : List Char} (hsteps : value.chars.length < steps)
    (hrest : EndsValue rest) : readValue steps (value.chars ++ rest) = some (value, rest)

theorem readsBack_null : ReadsBack null := by
  refine ⟨⟨'n', _, rfl, by decide⟩, fun hsteps _ => ?_⟩
  obtain ⟨steps, rfl⟩ := Nat.exists_eq_add_of_lt hsteps
  rfl

theorem readsBack_bool (b : Bool) : ReadsBack (bool b) := by
  cases b with
  | true =>
      refine ⟨⟨'t', _, rfl, by decide⟩, fun hsteps _ => ?_⟩
      obtain ⟨steps, rfl⟩ := Nat.exists_eq_add_of_lt hsteps
      rfl
  | false =>
      refine ⟨⟨'f', _, rfl, by decide⟩, fun hsteps _ => ?_⟩
      obtain ⟨steps, rfl⟩ := Nat.exists_eq_add_of_lt hsteps
      rfl

/-- An integer is read back. -/
theorem readsBack_int (n : Int) : ReadsBack (int n) := by
  obtain ⟨c, more, hcons, hc⟩ := exists_repr_eq_cons n
  refine ⟨⟨c, more, by rw [chars, hcons], fronts_of_number hc⟩, fun {steps rest} hsteps hrest => ?_⟩
  obtain ⟨steps, rfl⟩ := Nat.exists_eq_add_of_lt hsteps
  have hread := readNumber_repr n hrest
  rw [chars]
  rw [hcons, List.cons_append] at hread ⊢
  rw [readValue_of_number hc, hread]

/-- A string is read back. -/
theorem readsBack_str (s : String) : ReadsBack (str s) := by
  refine ⟨⟨'\"', _, rfl, by decide⟩, fun {steps rest} hsteps _ => ?_⟩
  obtain ⟨steps, rfl⟩ := Nat.exists_eq_add_of_lt hsteps
  rw [chars, stringChars_append, readValue, skipSpace_cons (by decide)]
  simp only [readString_flatMap_escaped, Option.bind_eq_bind, Option.bind_some,
    String.ofList_toList, Option.pure_def]

/-- An item that is not the last one goes on with a comma. -/
theorem itemChars_cons (item : Json) {more : List Json} (h : more ≠ []) :
    itemChars (item :: more) = item.chars ++ ',' :: itemChars more := by
  rw [itemChars]
  exact h

/-- Items that are read back one by one are read back together. -/
theorem readItems_itemChars {items : List Json} (hne : items ≠ [])
    (h : ∀ item ∈ items, ReadsBack item) {steps : Nat}
    (hsteps : (itemChars items).length < steps) (rest : List Char) :
    readItems steps (itemChars items ++ rest) = some (items, rest) := by
  induction items generalizing steps with
  | nil => exact absurd rfl hne
  | cons item more ih =>
      obtain ⟨hitem, hmore⟩ := List.forall_mem_cons.mp h
      obtain ⟨steps, rfl⟩ := Nat.exists_eq_add_one.mpr (Nat.zero_lt_of_lt hsteps)
      rw [readItems]
      by_cases hlast : more = []
      · subst hlast
        rw [itemChars, List.length_append, List.length_singleton] at hsteps
        rw [itemChars, List.append_assoc, List.singleton_append,
          hitem.read (by omega) (endsValue_cons (by decide) rest)]
        rfl
      · rw [itemChars_cons item hlast, List.length_append, List.length_cons] at hsteps
        rw [itemChars_cons item hlast, List.append_assoc, List.cons_append,
          hitem.read (by omega) (endsValue_cons (by decide) _), Option.bind_eq_bind,
          Option.bind_some]
        simp only [skipSpace_cons (show Fronts ',' by decide)]
        rw [ih hlast hmore (by omega)]
        rfl

/-- The front of an array with items is the front of its first item. -/
theorem exists_itemChars_eq_cons {item : Json} (h : ReadsBack item) (more : List Json) :
    ∃ c behind, itemChars (item :: more) = c :: behind ∧ Fronts c := by
  obtain ⟨c, behind, hcons, hfront⟩ := h.front
  by_cases hlast : more = []
  · subst hlast
    exact ⟨c, behind ++ [']'], by rw [itemChars, hcons, List.cons_append], hfront⟩
  · exact ⟨c, behind ++ ',' :: itemChars more,
      by rw [itemChars_cons item hlast, hcons, List.cons_append], hfront⟩

/-- An array of values that are read back is read back. -/
theorem readsBack_arr {items : List Json} (h : ∀ item ∈ items, ReadsBack item) :
    ReadsBack (arr items) := by
  refine ⟨⟨'[', itemChars items, by rw [chars], by decide⟩, fun {steps rest} hsteps _ => ?_⟩
  obtain ⟨steps, rfl⟩ := Nat.exists_eq_add_one.mpr (Nat.zero_lt_of_lt hsteps)
  rw [chars, List.length_cons] at hsteps
  rw [chars, List.cons_append, readValue, skipSpace_cons (by decide)]
  cases items with
  | nil => rfl
  | cons item more =>
      have hread := readItems_itemChars (List.cons_ne_nil item more) h
        (Nat.lt_of_succ_lt_succ hsteps) rest
      obtain ⟨c, behind, hcons, hfront⟩ := exists_itemChars_eq_cons (h item List.mem_cons_self) more
      have hbracket : c ≠ ']' := by
        rintro rfl
        exact absurd hfront (by decide)
      rw [hcons, List.cons_append] at hread ⊢
      simp only [skipSpace_cons hfront]
      split
      · next heq => exact absurd (List.cons.inj heq).1 hbracket
      · rw [hread]
        rfl

/-- The last member of an object, in front of a text. -/
theorem memberChars_singleton_append (key : String) (value : Json) (rest : List Char) :
    memberChars [(key, value)] ++ rest =
      '\"' :: (key.toList.flatMap escaped ++ '\"' :: ':' :: (value.chars ++ '\x7d' :: rest)) := by
  rw [memberChars, List.append_assoc, List.append_assoc, stringChars_append]
  rfl

/-- A member of an object that is not the last one, in front of a text. -/
theorem memberChars_cons_append (key : String) (value : Json) {more : List (String × Json)}
    (h : more ≠ []) (rest : List Char) :
    memberChars ((key, value) :: more) ++ rest =
      '\"' :: (key.toList.flatMap escaped ++
        '\"' :: ':' :: (value.chars ++ ',' :: (memberChars more ++ rest))) := by
  rw [memberChars, List.append_assoc, List.append_assoc, stringChars_append]
  · rfl
  · exact h

/-- Members whose values are read back one by one are read back together. -/
theorem readMembers_memberChars {members : List (String × Json)} (hne : members ≠ [])
    (h : ∀ member ∈ members, ReadsBack member.2) {steps : Nat}
    (hsteps : (memberChars members).length < steps) (rest : List Char) :
    readMembers steps (memberChars members ++ rest) = some (members, rest) := by
  induction members generalizing steps with
  | nil => exact absurd rfl hne
  | cons member more ih =>
      obtain ⟨key, value⟩ := member
      obtain ⟨hmember, hmore⟩ := List.forall_mem_cons.mp h
      have hvalue : ReadsBack value := hmember
      obtain ⟨steps, rfl⟩ := Nat.exists_eq_add_one.mpr (Nat.zero_lt_of_lt hsteps)
      rw [← List.append_nil (memberChars _)] at hsteps
      by_cases hlast : more = []
      · subst hlast
        rw [memberChars_singleton_append] at hsteps ⊢
        simp only [List.length_append, List.length_cons] at hsteps
        rw [readMembers, skipSpace_cons (by decide)]
        simp only [readString_flatMap_escaped, skipSpace_cons (show Fronts ':' by decide),
          Option.bind_eq_bind, Option.bind_some]
        rw [hvalue.read (by omega) (endsValue_cons (by decide) rest), String.ofList_toList]
        rfl
      · rw [memberChars_cons_append key value hlast] at hsteps ⊢
        simp only [List.length_append, List.length_cons, List.append_nil] at hsteps
        rw [readMembers, skipSpace_cons (by decide)]
        simp only [readString_flatMap_escaped, skipSpace_cons (show Fronts ':' by decide),
          Option.bind_eq_bind, Option.bind_some]
        rw [hvalue.read (by omega) (endsValue_cons (by decide) _), Option.bind_some]
        simp only [skipSpace_cons (show Fronts ',' by decide)]
        rw [ih hlast hmore (by omega), String.ofList_toList]
        rfl

/-- The front of an object with members is a quote. -/
theorem exists_memberChars_append_eq_cons (member : String × Json) (more : List (String × Json))
    (rest : List Char) : ∃ behind, memberChars (member :: more) ++ rest = '\"' :: behind := by
  by_cases hlast : more = []
  · subst hlast
    exact ⟨_, memberChars_singleton_append member.1 member.2 rest⟩
  · exact ⟨_, memberChars_cons_append member.1 member.2 hlast rest⟩

/-- An object of values that are read back is read back. -/
theorem readsBack_obj {members : List (String × Json)}
    (h : ∀ member ∈ members, ReadsBack member.2) : ReadsBack (obj members) := by
  refine ⟨⟨'\x7b', memberChars members, by rw [chars], by decide⟩, fun {steps rest} hsteps _ => ?_⟩
  obtain ⟨steps, rfl⟩ := Nat.exists_eq_add_one.mpr (Nat.zero_lt_of_lt hsteps)
  rw [chars, List.length_cons] at hsteps
  rw [chars, List.cons_append, readValue, skipSpace_cons (by decide)]
  cases members with
  | nil => rfl
  | cons member more =>
      have hread := readMembers_memberChars (List.cons_ne_nil member more) h
        (Nat.lt_of_succ_lt_succ hsteps) rest
      obtain ⟨behind, hcons⟩ := exists_memberChars_append_eq_cons member more rest
      rw [hcons] at hread ⊢
      simp only [skipSpace_cons (show Fronts '\"' by decide)]
      split
      · next heq => exact absurd (List.cons.inj heq).1 (by decide)
      · rw [hread]
        rfl

/-- The values whose numbers are all integers. -/
inductive Whole : Json → Prop
  | null : Whole .null
  | bool (b : Bool) : Whole (.bool b)
  | int (n : Int) : Whole (.int n)
  | str (s : String) : Whole (.str s)
  | arr {items : List Json} (h : ∀ item ∈ items, Whole item) : Whole (.arr items)
  | obj {members : List (String × Json)} (h : ∀ member ∈ members, Whole member.2) :
      Whole (.obj members)

/-- Whole values are read back, whatever they stand in. -/
theorem Whole.readsBack {value : Json} (h : Whole value) : ReadsBack value := by
  induction h with
  | null => exact readsBack_null
  | bool b => exact readsBack_bool b
  | int n => exact readsBack_int n
  | str s => exact readsBack_str s
  | arr _ ih => exact readsBack_arr ih
  | obj _ ih => exact readsBack_obj ih

/-- **What is written is read back.** The text of a whole value is read as this value. -/
theorem ofText?_text {value : Json} (h : Whole value) : ofText? value.text = some value := by
  have hsteps : value.chars.length < 2 * value.chars.length + 1 := by omega
  have hread := h.readsBack.read hsteps endsValue_nil
  rw [List.append_nil] at hread
  rw [ofText?, text, String.toList_ofList, ofChars?, hread]
  rfl

end Dicebox.Json
