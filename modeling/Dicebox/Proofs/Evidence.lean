import Dicebox.Proofs.Objections
import Dicebox.Proofs.Reading

/-!
# What an objection rests on

An objection carries details: what was found and what was expected, a number as it was written, the
limit that it exceeds, the sides of a group, the number of its dice that are still kept. This module
shows that they are true of the notation in front of the reader.

What a cause says can be checked against what stands at its place, whatever a place is: the end of
the notation, a token, a number, or a qualifier with its number behind a group. So this is stated
for any such *evidence*, once for all causes, and read off later for the text as well.

What the reader carries along of the group that is being written, its sides and the number of dice
still kept, belongs to the symbols since the last operator: these symbols write the group as it is
so far. That is the invariant here.

## Main definitions

* `Evidence`, `Cause.TrueOf` — what stands at a place, and what a cause says of it.
* `EndsInGroup` — the last symbols write a group, with which a term begins.
* `Reader.Behind` — what a state knows of the symbols that were read.
* `Objection.Grounded` — an objection is true of the symbols at its place.

## Main results

* `Reader.sound_step` — a step keeps the invariant, or raises a grounded objection.
* `Reader.grounded_of_start_read_eq_error` — all objections to notation are grounded.
-/

namespace Dicebox

/-! ### Evidence -/

/-- What stands at a place in notation. -/
structure Evidence where
  /-- The notation ends there, behind a token of this kind, or without any token. -/
  ending : Option TokenKind → Prop
  /-- A token of this kind stands there. -/
  token : TokenKind → Prop
  /-- This number stands there. -/
  number : Nat → Prop
  /-- Behind this group, as it is so far, a token of this kind and a number stand there. -/
  qualifier : DiceGroup → TokenKind → Nat → Prop

/-- What a cause says is true of the notation at its place, and of the limits. -/
def Cause.TrueOf (limits : Limits) (evidence : Evidence) : Cause → Prop
  | nothingToRoll => evidence.ending none
  | unknownCharacter => evidence.token .unknown
  | unexpected found expected =>
    evidence.token found ∧ found ≠ .unknown ∧ found ∉ expected ∧
      expected ∈ [termStarts, operators, [.integer]]
  | unexpectedEnd expected =>
    (∃ last, evidence.ending (some last)) ∧ expected ∈ [termStarts, [.integer]]
  | missingSides =>
    evidence.ending (some .dice) ∨
      ∃ kind, evidence.token kind ∧ kind ∉ [.integer, .percent, .unknown]
  | numberTooLarge => ∃ n, evidence.number n ∧ 2 ^ 63 ≤ n
  | noDice => evidence.number 0
  | tooFewSides sides => evidence.number sides ∧ sides < 2
  | tooManyDice count max => evidence.number count ∧ max = limits.maxDice ∧ max.toNat < count
  | tooManySides sides max =>
    (evidence.number sides ∨ evidence.token .percent ∧ sides = 100) ∧
      max = limits.maxSides ∧ max.toNat < sides
  | emptySelection qualifier =>
    ∃ group kind which, evidence.qualifier group kind 0 ∧ WritesSelection kind which ∧
      qualifier = .select which 0
  | selectsAllDice letters count kept =>
    ∃ group kind which, evidence.qualifier group kind count ∧ WritesSelection kind which ∧
      letters = which.letters ∧ kept = keptThrough group.count.toNat group.qualifiers ∧
        1 ≤ kept ∧ kept ≤ count
  | rerollThreshold threshold sides =>
    ∃ group, evidence.qualifier group .reroll threshold ∧ sides = group.sides ∧
      2 ≤ sides.toNat ∧ (threshold = 0 ∨ sides.toNat ≤ threshold)
  | explodeThreshold threshold sides =>
    ∃ group, evidence.qualifier group .explode threshold ∧ sides = group.sides ∧
      2 ≤ sides.toNat ∧ (threshold < 2 ∨ sides.toNat < threshold)

/-- Evidence shows other evidence: whatever stands at the one place stands at the other. -/
structure Evidence.Shows (evidence other : Evidence) : Prop where
  ending {last : Option TokenKind} : evidence.ending last → other.ending last
  token {kind : TokenKind} : evidence.token kind → other.token kind
  number {n : Nat} : evidence.number n → other.number n
  qualifier {group : DiceGroup} {kind : TokenKind} {n : Nat} :
    evidence.qualifier group kind n → other.qualifier group kind n

/-- What is true of evidence is true of all that it shows. -/
theorem Cause.TrueOf.mono {limits : Limits} {evidence other : Evidence}
    (h : evidence.Shows other) {cause : Cause} (htrue : cause.TrueOf limits evidence) :
    cause.TrueOf limits other := by
  cases cause with
  | nothingToRoll => exact h.ending htrue
  | unknownCharacter => exact h.token htrue
  | unexpected => exact htrue.imp_left h.token
  | unexpectedEnd => exact htrue.imp_left (Exists.imp fun _ => h.ending)
  | missingSides => exact htrue.imp h.ending (Exists.imp fun _ => And.imp_left h.token)
  | numberTooLarge => exact htrue.imp fun _ => And.imp_left h.number
  | noDice => exact h.number htrue
  | tooFewSides | tooManyDice => exact htrue.imp_left h.number
  | tooManySides => exact htrue.imp_left (Or.imp h.number (And.imp_left h.token))
  | emptySelection | selectsAllDice =>
      obtain ⟨group, kind, which, hqualifier, hdetails⟩ := htrue
      exact ⟨group, kind, which, h.qualifier hqualifier, hdetails⟩
  | rerollThreshold | explodeThreshold =>
      exact htrue.imp fun _ => And.imp_left h.qualifier

/-- Nothing but an unknown character stands at a place. -/
def Evidence.ofUnknown : Evidence where
  ending _ := False
  token kind := kind = .unknown
  number _ := False
  qualifier _ _ _ := False

/-- Where nothing but an unknown character stands, there is no cause but that. -/
theorem Cause.eq_unknownCharacter_of_trueOf {limits : Limits} {cause : Cause}
    (h : cause.TrueOf limits .ofUnknown) : cause = .unknownCharacter := by
  cases cause with
  | unknownCharacter => rfl
  | unexpected => exact absurd h.1 h.2.1
  | missingSides =>
      obtain hending | ⟨kind, rfl, hkind⟩ := h
      · exact hending.elim
      · exact absurd (by simp) hkind
  | tooManySides =>
      obtain ⟨hnumber | ⟨hpercent, -⟩, -⟩ := h
      · exact hnumber.elim
      · cases hpercent
  | nothingToRoll | noDice => exact h.elim
  | unexpectedEnd => exact h.1.elim fun _ => False.elim
  | numberTooLarge => exact h.elim fun _ hn => hn.1.elim
  | tooFewSides | tooManyDice => exact h.1.elim
  | emptySelection | selectsAllDice =>
      obtain ⟨_, _, _, hqualifier, -⟩ := h
      exact hqualifier.elim
  | rerollThreshold | explodeThreshold => exact h.elim fun _ hqualifier => hqualifier.1.elim

/-! ### Groups that are being written -/

variable {limits : Limits} {seen more : List Symbol} {symbol : Symbol} {g : DiceGroup}

/-- A term begins behind symbols: there are none, or the last one is an operator. -/
def BeginsTerm (seen : List Symbol) : Prop :=
  ∀ last ∈ seen.getLast?, ∃ op, WritesOperator last.kind op

/-- Symbols end in a group: those since the last operator write it. -/
def EndsInGroup (limits : Limits) (seen : List Symbol) (group : DiceGroup) : Prop :=
  ∃ front segment, seen = front ++ segment ∧ BeginsTerm front ∧
    WritesTerm limits segment (.dice group)

/-- Behind no symbol a term begins. -/
theorem beginsTerm_nil : BeginsTerm [] :=
  nofun

/-- Behind an operator a term begins. -/
theorem beginsTerm_concat {op : Operator} (h : WritesOperator symbol.kind op) :
    BeginsTerm (seen ++ [symbol]) := by
  intro last hlast
  rw [List.getLast?_concat] at hlast
  exact Option.some.inj hlast ▸ ⟨op, h⟩

/-- The dice kept behind one more qualifier. -/
theorem keptThrough_qualify (group : DiceGroup) (qualifier : Qualifier) :
    keptThrough group.count.toNat (group.qualify qualifier).qualifiers =
      qualifier.keptAfter (keptThrough group.count.toNat group.qualifiers) := by
  rw [keptThrough, DiceGroup.qualify, List.foldl_append]
  rfl

/-- Qualifiers leave a word of dice kept. -/
theorem keptThrough_lt_size {kept : Nat} (h : kept < UInt32.size) (qualifiers : List Qualifier) :
    keptThrough kept qualifiers < UInt32.size := by
  induction qualifiers generalizing kept with
  | nil => exact h
  | cons qualifier more ih => exact ih (keptAfter_lt_size h qualifier)

/-- Qualifiers without a flaw leave a die kept. -/
theorem one_le_keptThrough {kept : Nat} {qualifiers : List Qualifier}
    (hflaw : g.qualifierFlaw? kept qualifiers = none) (h : 1 ≤ kept) :
    1 ≤ keptThrough kept qualifiers := by
  induction qualifiers generalizing kept with
  | nil => exact h
  | cons qualifier more ih =>
      obtain ⟨haccepts, hmore⟩ := qualifierFlaw?_cons_eq_none_iff.mp hflaw
      refine ih hmore ?_
      cases qualifier with
      | select which n =>
          obtain ⟨hpos, hlt⟩ := haccepts
          cases which <;> simp only [Qualifier.keptAfter] <;> omega
      | reroll | explode => exact h

/-- Qualifiers and one more behind them. -/
theorem WritesQualifiers.concat {sides kept : Nat} {front : List Symbol}
    {qualifiers : List Qualifier} {qualifier : Qualifier}
    (h : WritesQualifiers sides kept front qualifiers)
    (hlast : WritesQualifier sides (keptThrough kept qualifiers) more qualifier) :
    WritesQualifiers sides kept (front ++ more) (qualifiers ++ [qualifier]) := by
  induction h with
  | nil =>
      rw [List.nil_append, ← List.append_nil more]
      exact .cons hlast .nil
  | cons hfirst _ ih =>
      rw [List.append_assoc]
      exact .cons hfirst (ih hlast)

/-- No term begins inside another one, because that holds no operator. -/
theorem eq_nil_of_beginsTerm {front middle segment : List Symbol} {term : Term}
    (hfront : BeginsTerm (front ++ middle)) (hterm : WritesTerm limits (middle ++ segment) term) :
    middle = [] := by
  by_contra hmiddle
  have hlast : (front ++ middle).getLast? = some (middle.getLast hmiddle) := by
    rw [List.getLast?_append, List.getLast?_eq_some_getLast hmiddle, Option.some_or]
  obtain ⟨op, hop⟩ := hfront _ hlast
  exact hterm.kind_notMem _ (List.mem_append_left _ (List.getLast_mem hmiddle)) hop.kind_mem

namespace EndsInGroup

/-- Symbols end in one group at most. -/
theorem unique {g' : DiceGroup} (h : EndsInGroup limits seen g)
    (h' : EndsInGroup limits seen g') : g = g' := by
  obtain ⟨front, segment, rfl, hfront, hwrites⟩ := h
  obtain ⟨front', segment', hseen, hfront', hwrites'⟩ := h'
  have hsegment : segment = segment' := by
    rcases List.append_eq_append_iff.mp hseen with
      ⟨middle, rfl, rfl⟩ | ⟨middle, rfl, rfl⟩
    · rw [eq_nil_of_beginsTerm hfront' hwrites, List.nil_append]
    · rw [eq_nil_of_beginsTerm hfront hwrites', List.nil_append]
  -- The reader is a function, so symbols write one term at most.
  have hread := (@read_start_eq_ok_iff limits 0 _ _).mpr (.term hwrites)
  have hread' := (@read_start_eq_ok_iff limits 0 _ _).mpr (.term hwrites')
  rw [hsegment, hread'] at hread
  cases hread
  rfl

/-- The dice of a group that is being written have two sides. -/
theorem two_le_sides (h : EndsInGroup limits seen g) : 2 ≤ g.sides.toNat := by
  obtain ⟨_, _, -, -, hwrites⟩ := h
  cases hwrites with
  | dice _ hsides _ => exact hsides.two_le_and_le.1

/-- A die of a group that is being written is still kept. -/
theorem one_le_kept (h : EndsInGroup limits seen g) :
    1 ≤ keptThrough g.count.toNat g.qualifiers := by
  obtain ⟨_, _, -, -, hwrites⟩ := h
  cases hwrites with
  | dice _ _ hqualifiers =>
      exact one_le_keptThrough hqualifiers.qualifierFlaw?_eq_none
        (UInt32.lt_iff_toNat_lt.mp g.count_pos)

/-- A qualifier behind a group is written as a part of it. -/
theorem qualify {qualifier : Qualifier} (h : EndsInGroup limits seen g)
    (hlast : WritesQualifier g.sides.toNat (keptThrough g.count.toNat g.qualifiers)
      more qualifier) :
    EndsInGroup limits (seen ++ more) (g.qualify qualifier) := by
  obtain ⟨front, segment, rfl, hfront, hwrites⟩ := h
  refine ⟨front, segment ++ more, List.append_assoc .., hfront, ?_⟩
  cases hwrites with
  | dice hcount hsides hqualifiers =>
      rw [List.append_assoc]
      exact .dice hcount hsides (hqualifiers.concat hlast)

end EndsInGroup

/-! ### Objections -/

/-- What stands at a place among symbols. -/
def Place.evidence (limits : Limits) (all : List Symbol) (place : Place) : Evidence where
  ending last := place = .atEnd ∧ all.getLast?.map Symbol.kind = last
  token kind := ∃ before after value, all = before ++ ⟨kind, value⟩ :: after ∧
    place = .tokens before.length before.length
  number n := ∃ before after, all = before ++ ⟨.integer, n⟩ :: after ∧
    place = .tokens before.length before.length
  qualifier group kind n := ∃ before after value,
    all = before ++ ⟨kind, value⟩ :: ⟨.integer, n⟩ :: after ∧ EndsInGroup limits before group ∧
      place = .tokens before.length (before.length + 1)

namespace Objection

/-- What an objection says is true of the symbols at its place. -/
def Grounded (limits : Limits) (all : List Symbol) (objection : Objection) : Prop :=
  objection.cause.TrueOf limits (objection.place.evidence limits all)

/-- An objection to a symbol because only others may stand there is grounded. -/
theorem grounded_unexpected {expected : List TokenKind} (h : symbol.kind ∉ expected)
    (hexpected : expected ∈ [termStarts, operators, [.integer]]) :
    (symbol.unexpected seen.length expected).Grounded limits (seen ++ symbol :: more) := by
  obtain ⟨kind, value⟩ := symbol
  rw [Symbol.unexpected]
  split
  · next hunknown =>
      obtain rfl := hunknown
      exact ⟨seen, more, value, rfl, rfl⟩
  · next hknown => exact ⟨⟨seen, more, value, rfl, rfl⟩, hknown, h, hexpected⟩

end Objection

/-- What a marker objects to in its number is true of the group that it stands behind. -/
theorem Marker.grounded_of_withNumber {marker : Marker} {kind : TokenKind} {value n : Nat}
    {cause : Cause} (hseen : EndsInGroup limits seen g) (hmarker : ofKind kind = some marker)
    (h : marker.withNumber g.sides (keptThrough g.count.toNat g.qualifiers) n =
      .error cause) :
    (⟨cause, .tokens seen.length (seen.length + 1)⟩ : Objection).Grounded limits
      (seen ++ ⟨kind, value⟩ :: ⟨.integer, n⟩ :: more) := by
  have hplace : (Place.evidence limits (seen ++ ⟨kind, value⟩ :: ⟨.integer, n⟩ :: more)
      (.tokens seen.length (seen.length + 1))).qualifier g kind n :=
    ⟨seen, more, value, rfl, hseen, rfl⟩
  cases marker with
  | select which =>
      have hwhich := writesSelection_iff.mpr hmarker
      simp only [withNumber] at h
      split at h
      · next hzero =>
          cases h
          exact ⟨g, kind, which, hzero ▸ hplace, hwhich, rfl⟩
      split at h
      · next hall =>
          cases h
          exact ⟨g, kind, which, hplace, hwhich, rfl, rfl, hseen.one_le_kept, hall⟩
      · cases h
  | reroll =>
      obtain rfl := ofKind_eq_reroll_iff.mp hmarker
      simp only [withNumber] at h
      split at h
      · next hbounds =>
          cases h
          exact ⟨g, hplace, rfl, hseen.two_le_sides, hbounds.imp_left Nat.lt_one_iff.mp⟩
      · cases h
  | explode =>
      obtain rfl := ofKind_eq_explode_iff.mp hmarker
      simp only [withNumber] at h
      split at h
      · next hbounds =>
          cases h
          exact ⟨g, hplace, rfl, hseen.two_le_sides, hbounds⟩
      · cases h

/-! ### One symbol in each state -/

namespace Reader

/-- What a state knows of the symbols that were read. -/
def Behind (limits : Limits) (seen : List Symbol) : Reader → Prop
  | start => seen = []
  | term => BeginsTerm seen ∧ seen ≠ []
  | number n i => ∃ front, seen = front ++ [⟨.integer, n⟩] ∧ BeginsTerm front ∧ i = front.length
  | sides count _ => ∃ front first value, seen = front ++ (first ++ [⟨.dice, value⟩]) ∧
      BeginsTerm front ∧ WritesCount limits first count
  | group g kept => EndsInGroup limits seen g ∧ kept = keptThrough g.count.toNat g.qualifiers
  | marked g kept marker i => ∃ front first, seen = front ++ [first] ∧
      EndsInGroup limits front g ∧ kept = keptThrough g.count.toNat g.qualifiers ∧
        Marker.ofKind first.kind = some marker ∧ i = front.length

/-- A move on a symbol behind others leads to a state that knows them all, or to an objection that
is grounded, whatever follows. -/
def Sound (limits : Limits) (seen : List Symbol) (symbol : Symbol) (more : List Symbol) :
    Move → Prop :=
  Keeps (fun seen next => next.Behind limits seen)
    (Objection.Grounded limits (seen ++ symbol :: more)) (seen ++ [symbol])

/-- At the beginning of a term. -/
theorem sound_beginTerm (hseen : BeginsTerm seen) :
    Sound limits seen symbol more (beginTerm seen.length symbol) := by
  obtain ⟨kind, value⟩ := symbol
  rw [beginTerm.eq_def]
  split
  · next hkind =>
      obtain rfl : kind = .dice := hkind
      exact ⟨seen, [], value, rfl, hseen, .omitted⟩
  · next hkind =>
      obtain rfl : kind = .integer := hkind
      split
      · exact ⟨seen, rfl, hseen, rfl⟩
      · next hlarge =>
          have hsize : 2 ^ 63 ≤ UInt64.size := by decide
          exact ⟨value, ⟨seen, more, rfl, rfl⟩, Nat.le_trans hsize (Nat.not_lt.mp hlarge)⟩
  · next hdice hinteger =>
      refine Objection.grounded_unexpected ?_ List.mem_cons_self
      simp only [termStarts, List.mem_cons, List.not_mem_nil, or_false]
      exact not_or.mpr ⟨hinteger, hdice⟩

/-- Behind a complete term. -/
theorem sound_afterTerm (term : Term) :
    Sound limits seen symbol more (afterTerm term seen.length symbol) := by
  rw [afterTerm.eq_def]
  split
  · next hkind =>
      have hop : WritesOperator symbol.kind .plus := hkind ▸ .plus
      exact ⟨beginsTerm_concat hop, List.concat_ne_nil _ _⟩
  · next hkind =>
      have hop : WritesOperator symbol.kind .minus := hkind ▸ .minus
      exact ⟨beginsTerm_concat hop, List.concat_ne_nil _ _⟩
  · next hplus hminus =>
      refine Objection.grounded_unexpected ?_ (List.mem_cons_of_mem _ List.mem_cons_self)
      simp only [operators, List.mem_cons, List.not_mem_nil, or_false]
      exact not_or.mpr ⟨hplus, hminus⟩

/-- A number that is too large for a constant is as large as the objection says. -/
theorem grounded_of_constant_eq_error {n : Nat} {objection : Objection}
    (h : constant n seen.length = .error objection) :
    objection.Grounded limits (seen ++ ⟨.integer, n⟩ :: more) := by
  have hmax := Int64.toInt_maxValue
  rw [constant] at h
  split at h
  · cases h
  · next hlarge =>
      cases h
      refine ⟨n, ⟨seen, more, rfl, rfl⟩, ?_⟩
      omega

/-- Behind a number. -/
theorem sound_afterNumber {n i : Nat} (hreader : (number n i).Behind limits seen) :
    Sound limits seen symbol more (afterNumber limits n i seen.length symbol) := by
  obtain ⟨front, rfl, hfront, rfl⟩ := hreader
  have hall : front ++ [⟨.integer, n⟩] ++ symbol :: more =
      front ++ ⟨.integer, n⟩ :: symbol :: more := List.append_assoc ..
  rw [afterNumber.eq_def]
  split
  · next hkind =>
      split
      · next hzero =>
          subst hzero
          exact ⟨front, _, hall, rfl⟩
      split
      · next hmany => exact ⟨⟨front, _, hall, rfl⟩, rfl, hmany⟩
      · next hpos hle =>
          obtain ⟨kind, value⟩ := symbol
          obtain rfl : kind = .dice := hkind
          exact ⟨front, [⟨.integer, n⟩], value, List.append_assoc .., hfront,
            .number UInt32.toNat_ofNatLT (Nat.pos_of_ne_zero hpos) (Nat.not_lt.mp hle)⟩
  · cases hconstant : constant n front.length with
    | ok term => exact sound_afterTerm term
    | error objection =>
        change objection.Grounded limits (front ++ [⟨.integer, n⟩] ++ symbol :: more)
        rw [hall]
        exact grounded_of_constant_eq_error hconstant

/-- A number of sides behind the `d` of a group, if that is what the symbol writes. -/
theorem sound_withSides {count : UInt32} {count_pos : 0 < count} {n : Nat}
    (hreader : (sides count count_pos).Behind limits seen)
    (hwrites : n ≤ limits.maxSides.toNat → WritesSides limits symbol (.ofNat n))
    (hplace : ((Place.tokens seen.length seen.length).evidence limits
        (seen ++ symbol :: more)).number n ∨
      ((Place.tokens seen.length seen.length).evidence limits
        (seen ++ symbol :: more)).token .percent ∧ n = 100) :
    Sound limits seen symbol more
      (readSides.withSides limits count count_pos seen.length n) := by
  rw [readSides.withSides.eq_def]
  split
  · next hmany => exact ⟨hplace, rfl, hmany⟩
  · next hle =>
      obtain ⟨front, first, value, rfl, hfront, hcount⟩ := hreader
      refine ⟨⟨front, first ++ ⟨.dice, value⟩ :: [symbol], ?_, hfront, ?_⟩, rfl⟩
      · simp only [List.append_assoc, List.singleton_append]
      · exact .dice hcount (hwrites (Nat.not_lt.mp hle)) .nil

/-- Behind the `d` of a group. -/
theorem sound_readSides {count : UInt32} {count_pos : 0 < count}
    (hreader : (sides count count_pos).Behind limits seen) :
    Sound limits seen symbol more (readSides limits count count_pos seen.length symbol) := by
  obtain ⟨kind, value⟩ := symbol
  rw [readSides.eq_def]
  split
  · next hkind =>
      obtain rfl : kind = .percent := hkind
      exact sound_withSides hreader .percent (.inr ⟨⟨seen, more, value, rfl, rfl⟩, rfl⟩)
  · next hkind =>
      obtain rfl : kind = .integer := hkind
      split
      · next hlarge =>
          have hsize : 2 ^ 63 ≤ UInt64.size := by decide
          exact ⟨value, ⟨seen, more, rfl, rfl⟩, Nat.le_trans hsize hlarge⟩
      split
      · next hfew => exact ⟨⟨seen, more, rfl, rfl⟩, hfew⟩
      · next htwo =>
          exact sound_withSides hreader
            (fun hle => .number (toNat_ofNat_of_le hle) (Nat.not_lt.mp htwo) hle)
            (.inl ⟨seen, more, rfl, rfl⟩)
  · next hkind =>
      obtain rfl : kind = .unknown := hkind
      exact ⟨seen, more, value, rfl, rfl⟩
  · next hpercent hinteger hunknown =>
      refine .inr ⟨kind, ⟨seen, more, value, rfl, rfl⟩, ?_⟩
      simp only [List.mem_cons, List.not_mem_nil, or_false]
      exact not_or.mpr ⟨hinteger, not_or.mpr ⟨hpercent, hunknown⟩⟩

/-- Behind a group. -/
theorem sound_afterGroup {g : DiceGroup} {kept : Nat}
    (hreader : (group g kept).Behind limits seen) :
    Sound limits seen symbol more (afterGroup g kept seen.length symbol) := by
  rw [afterGroup.eq_def]
  split
  · next marker hmarker => exact ⟨seen, symbol, rfl, hreader.1, hreader.2, hmarker, rfl⟩
  · exact sound_afterTerm _

/-- Behind a group and a marker that needs no number, there is a group with one qualifier more. -/
theorem behind_group_of_alone {g : DiceGroup} {kept i : Nat} {marker : Marker}
    {qualifier : Qualifier} (hreader : (marked g kept marker i).Behind limits seen)
    (halone : marker.alone? = some qualifier) :
    (group (g.qualify qualifier) kept).Behind limits seen := by
  obtain ⟨front, ⟨kind, value⟩, rfl, hfront, rfl, hmarker, -⟩ := hreader
  have hlt := keptThrough_lt_size g.count.toNat_lt g.qualifiers
  refine ⟨hfront.qualify ((writesQualifier_iff hfront.two_le_sides hlt).mpr ?_), ?_⟩
  · exact ⟨kind, value, marker, hmarker, .inl ⟨rfl, halone⟩⟩
  · exact ((keptThrough_qualify g qualifier).trans (keptAfter_of_alone halone)).symm

/-- Behind the first token of a qualifier. -/
theorem sound_afterMarker {g : DiceGroup} {kept i : Nat} {marker : Marker}
    (hreader : (marked g kept marker i).Behind limits seen) :
    Sound limits seen symbol more (afterMarker g kept marker i seen.length symbol) := by
  rw [afterMarker.eq_def]
  split
  · next hkind =>
      obtain ⟨sort, n⟩ := symbol
      obtain rfl : sort = .integer := hkind
      split
      · next hlarge =>
          have hsize : 2 ^ 63 ≤ UInt64.size := by decide
          exact ⟨n, ⟨seen, more, rfl, rfl⟩, Nat.le_trans hsize hlarge⟩
      obtain ⟨front, ⟨kind, value⟩, rfl, hfront, rfl, hmarker, rfl⟩ := hreader
      have hlt := keptThrough_lt_size g.count.toNat_lt g.qualifiers
      split
      · next qualifier hnumber =>
          refine ⟨?_, (keptThrough_qualify g qualifier).symm⟩
          rw [List.append_assoc]
          refine hfront.qualify ((writesQualifier_iff hfront.two_le_sides hlt).mpr ?_)
          exact ⟨kind, value, marker, hmarker, .inr ⟨n, rfl, hnumber⟩⟩
      · next cause hcause =>
          rw [Sound, Keeps, List.append_assoc, List.length_append, List.length_singleton]
          exact Marker.grounded_of_withNumber hfront hmarker hcause
  · next hinteger =>
      split
      · next qualifier halone => exact sound_afterGroup (behind_group_of_alone hreader halone)
      · exact Objection.grounded_unexpected (mt List.mem_singleton.mp hinteger) (by simp)

/-- **A step from a state that knows the symbols before leads to one that knows them all, or to a
grounded objection.** -/
theorem sound_step {reader : Reader} (hreader : reader.Behind limits seen) :
    Sound limits seen symbol more (reader.step limits seen.length symbol) := by
  cases reader with
  | start =>
      obtain rfl : seen = [] := hreader
      exact sound_beginTerm beginsTerm_nil
  | term => exact sound_beginTerm hreader.1
  | number n i => exact sound_afterNumber hreader
  | sides count count_pos => exact sound_readSides hreader
  | group g kept => exact sound_afterGroup hreader
  | marked g kept marker i => exact sound_afterMarker hreader

/-! ### All symbols -/

/-- What a state objects to at the end is grounded. -/
theorem grounded_of_finish_eq_error {reader : Reader} (hreader : reader.Behind limits seen)
    {objection : Objection} (h : reader.finish = .error objection) :
    objection.Grounded limits seen := by
  have hlast (hne : seen ≠ []) : ∃ last, seen.getLast?.map Symbol.kind = some last :=
    ⟨_, congrArg (Option.map Symbol.kind) (List.getLast?_eq_some_getLast hne)⟩
  cases reader with
  | start =>
      cases h
      obtain rfl : seen = [] := hreader
      exact ⟨rfl, rfl⟩
  | term =>
      cases h
      exact ⟨(hlast hreader.2).imp fun _ hkind => ⟨rfl, hkind⟩, List.mem_cons_self⟩
  | number n i =>
      obtain ⟨front, rfl, -, rfl⟩ := hreader
      cases hconstant : constant n front.length with
      | ok term =>
          rw [finish, hconstant] at h
          cases h
      | error other =>
          rw [finish, hconstant] at h
          cases h
          exact grounded_of_constant_eq_error hconstant
  | sides count count_pos =>
      cases h
      obtain ⟨front, first, value, rfl, -, -⟩ := hreader
      refine .inl ⟨rfl, ?_⟩
      rw [← List.append_assoc, List.getLast?_concat]
      rfl
  | group => cases h
  | marked g kept marker i =>
      rw [finish] at h
      split at h
      · cases h
      · cases h
        obtain ⟨front, first, rfl, -⟩ := hreader
        refine ⟨(hlast (List.concat_ne_nil _ _)).imp fun _ hkind => ⟨rfl, hkind⟩, ?_⟩
        exact List.mem_cons_of_mem _ List.mem_cons_self

/-- **Every objection to notation is grounded.** -/
theorem grounded_of_start_read_eq_error {all : List Symbol} {objection : Objection}
    (h : start.read limits 0 all = .error objection) : objection.Grounded limits all := by
  have hstart : start.Behind limits [] := rfl
  refine post_of_read_eq_error (fun seen symbol more reader hall hreader => ?_)
    (fun reader objection hreader => grounded_of_finish_eq_error hreader) rfl hstart h
  rw [hall]
  exact sound_step hreader

end Reader

end Dicebox
