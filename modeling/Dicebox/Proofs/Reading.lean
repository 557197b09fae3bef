import Dicebox.Proofs.Grammar
import Dicebox.Proofs.Reachable
import Dicebox.Proofs.WellFormed

/-!
# The reader accepts the grammar

The reader takes one symbol at a time and never goes back, while a derivation cuts all
symbols at once. What relates them is a language for every state: the symbols that complete
what the state has seen of a term to an expression, with the terms that come of it
(`Reader.Completes`). The language of the first state is the grammar itself.

For each state it is shown that its language, taken apart at the first symbol, is the
language of the state that the reader steps to. So the reader accepts exactly the language
of its state, by induction on the symbols, and soundness and completeness are one proof.

The languages are right only in states that the reader comes to: in these dice have at least
two sides, so that an `r` without a number is never out of place, and the dice kept are
counted by a machine word, so that no selection is cut off (`Reader.Possible`).

## Main definitions

* `Continues` — what may follow a complete term.
* `Reader.Completes` — the language of a state.
* `Reader.Possible` — the states that the reader comes to.

## Main results

* `Reader.completes_cons`, `Reader.completes_nil` — the languages of the states, taken apart
  at a symbol and at the end.
* `Reader.read_eq_ok_iff` — the reader accepts exactly the language of its state.
* `parse_eq_ok_iff` — a text is parsed exactly to the terms that its symbols write.
-/

namespace Dicebox

variable {limits : Limits}

/-- A number that an amount holds is at most the largest amount. -/
theorem le_of_toInt_eq {n : Nat} {value : Amount} (h : value.toInt = n) : n ≤ 2 ^ 63 - 1 := by
  have hle := value.toInt_le
  rw [h, Int64.toInt_maxValue] at hle
  omega

/-! ### Qualifiers -/

/-- Letters write a selection exactly when they mark it. -/
theorem writesSelection_iff {kind : TokenKind} {which : Selection} :
    WritesSelection kind which ↔ Marker.ofKind kind = some (.select which) := by
  constructor
  · intro h
    cases h <;> rfl
  · intro h
    cases kind <;> cases h <;> constructor

/-- Only `r` marks a reroll. -/
theorem ofKind_eq_reroll_iff {kind : TokenKind} :
    Marker.ofKind kind = some .reroll ↔ kind = .reroll := by
  cases kind <;> simp [Marker.ofKind]

/-- Only `!` marks an explosion. -/
theorem ofKind_eq_explode_iff {kind : TokenKind} :
    Marker.ofKind kind = some .explode ↔ kind = .explode := by
  cases kind <;> simp [Marker.ofKind]

/-- The qualifier that a marker makes with a word. -/
def Marker.made : Marker → UInt32 → Qualifier
  | select which => .select which
  | reroll => .reroll
  | explode => fun threshold => .explode (some threshold)

/-- A marker takes a number exactly when the number is a word that makes a qualifier which
accepts the dice. -/
theorem withNumber_eq_ok_iff {marker : Marker} {sides : UInt32} {kept n : Nat}
    {qualifier : Qualifier} (hkept : kept < UInt32.size) :
    marker.withNumber sides kept n = .ok qualifier ↔
      ∃ number : UInt32, number.toNat = n ∧ marker.made number = qualifier ∧
        qualifier.Accepts sides kept := by
  constructor
  · intro h
    cases marker with
    | select which =>
        simp only [Marker.withNumber] at h
        split at h
        · cases h
        split at h
        · cases h
        · cases h
          have hn : (UInt32.ofNat n).toNat = n := UInt32.toNat_ofNat_of_lt' (by omega)
          refine ⟨.ofNat n, hn, rfl, ?_⟩
          rw [Qualifier.Accepts, hn]
          omega
    | reroll =>
        simp only [Marker.withNumber] at h
        split at h
        · cases h
        · cases h
          have hle : n ≤ sides.toNat := by omega
          refine ⟨.ofNat n, toNat_ofNat_of_le hle, rfl, ?_⟩
          rw [Qualifier.Accepts, UInt32.le_iff_toNat_le, UInt32.lt_iff_toNat_lt,
            toNat_ofNat_of_le hle, UInt32.toNat_one]
          omega
    | explode =>
        simp only [Marker.withNumber] at h
        split at h
        · cases h
        · cases h
          have hle : n ≤ sides.toNat := by omega
          have htwo : (2 : UInt32).toNat = 2 := rfl
          refine ⟨.ofNat n, toNat_ofNat_of_le hle, rfl, ?_⟩
          rw [Qualifier.Accepts, UInt32.le_iff_toNat_le, UInt32.le_iff_toNat_le,
            toNat_ofNat_of_le hle, htwo]
          omega
  · rintro ⟨number, rfl, rfl, haccepts⟩
    cases marker with
    | select which =>
        obtain ⟨hpos, hlt⟩ := haccepts
        rw [Marker.withNumber, if_neg (by omega), if_neg (by omega), UInt32.ofNat_toNat]
        rfl
    | reroll =>
        have hpos : 1 ≤ number.toNat := UInt32.le_iff_toNat_le.mp haccepts.1
        have hlt : number.toNat < sides.toNat := UInt32.lt_iff_toNat_lt.mp haccepts.2
        rw [Marker.withNumber, if_neg (by omega), UInt32.ofNat_toNat]
        rfl
    | explode =>
        have htwo : 2 ≤ number.toNat := UInt32.le_iff_toNat_le.mp haccepts.1
        have hle : number.toNat ≤ sides.toNat := UInt32.le_iff_toNat_le.mp haccepts.2
        rw [Marker.withNumber, if_neg (by omega), UInt32.ofNat_toNat]
        rfl

/-- A marker and a symbol behind it write a qualifier exactly when the symbol is a number
that the marker takes; a marker alone writes one exactly when it needs no number. -/
theorem writesQualifier_iff {sides : UInt32} {kept : Nat} (hsides : 2 ≤ sides.toNat)
    (hkept : kept < UInt32.size) {front : List Symbol} {qualifier : Qualifier} :
    WritesQualifier sides.toNat kept front qualifier ↔
      ∃ kind value marker, Marker.ofKind kind = some marker ∧
        (front = [⟨kind, value⟩] ∧ marker.alone? = some qualifier ∨
          ∃ n, front = [⟨kind, value⟩, ⟨.integer, n⟩] ∧
            marker.withNumber sides kept n = .ok qualifier) := by
  constructor
  · intro h
    have haccepts := h.accepts
    cases h with
    | select hwhich hn =>
        refine ⟨_, _, _, writesSelection_iff.mp hwhich, .inr ⟨_, rfl, ?_⟩⟩
        exact (withNumber_eq_ok_iff hkept).mpr ⟨_, hn, rfl, haccepts⟩
    | reroll hn =>
        refine ⟨_, _, .reroll, rfl, .inr ⟨_, rfl, ?_⟩⟩
        exact (withNumber_eq_ok_iff hkept).mpr ⟨_, hn, rfl, haccepts⟩
    | rerollOnes => exact ⟨_, _, .reroll, rfl, .inl ⟨rfl, rfl⟩⟩
    | explode hn =>
        refine ⟨_, _, .explode, rfl, .inr ⟨_, rfl, ?_⟩⟩
        exact (withNumber_eq_ok_iff hkept).mpr ⟨_, hn, rfl, haccepts⟩
    | explodeHighest => exact ⟨_, _, .explode, rfl, .inl ⟨rfl, rfl⟩⟩
  · rintro ⟨kind, value, marker, hmarker, ⟨rfl, halone⟩ | ⟨n, rfl, hnumber⟩⟩
    · cases marker with
      | select which => cases halone
      | reroll =>
          obtain rfl := ofKind_eq_reroll_iff.mp hmarker
          cases halone
          exact .rerollOnes hsides
      | explode =>
          obtain rfl := ofKind_eq_explode_iff.mp hmarker
          cases halone
          exact .explodeHighest
    · obtain ⟨number, rfl, rfl, haccepts⟩ := (withNumber_eq_ok_iff hkept).mp hnumber
      cases marker with
      | select which => exact .select (writesSelection_iff.mpr hmarker) rfl haccepts.1 haccepts.2
      | reroll =>
          obtain rfl := ofKind_eq_reroll_iff.mp hmarker
          exact .reroll rfl (UInt32.le_iff_toNat_le.mp haccepts.1)
            (UInt32.lt_iff_toNat_lt.mp haccepts.2)
      | explode =>
          obtain rfl := ofKind_eq_explode_iff.mp hmarker
          exact .explode rfl (UInt32.le_iff_toNat_le.mp haccepts.1)
            (UInt32.le_iff_toNat_le.mp haccepts.2)

/-- Whatever a marker makes without a number is no selection. -/
theorem keptAfter_of_alone {marker : Marker} {qualifier : Qualifier} {kept : Nat}
    (h : marker.alone? = some qualifier) : qualifier.keptAfter kept = kept := by
  cases marker <;> cases h <;> rfl

/-- The numbers that markers take are words. -/
theorem lt_size_of_withNumber {marker : Marker} {sides : UInt32} {kept n : Nat}
    {qualifier : Qualifier} (hkept : kept < UInt32.size)
    (h : marker.withNumber sides kept n = .ok qualifier) : n < UInt32.size := by
  obtain ⟨number, rfl, -, -⟩ := (withNumber_eq_ok_iff hkept).mp h
  exact number.toNat_lt

/-! ### What may follow -/

/-- Symbols continue an expression behind a complete term: there are none, or they are an
operator and an expression. -/
inductive Continues (limits : Limits) (term : Term) : List Symbol → List Term → Prop
  | nil : Continues limits term [] [term]
  | chain {more : List Symbol} {kind : TokenKind} {value : Nat} {op : Operator}
      {terms : List Term} :
      WritesOperator kind op → Writes limits more terms →
      Continues limits term (⟨kind, value⟩ :: more) (term :: .operator op :: terms)

/-- An expression is a term and what continues it. -/
theorem writes_iff_continues {all : List Symbol} {terms : List Term} :
    Writes limits all terms ↔ ∃ front term behind,
      all = front ++ behind ∧ WritesTerm limits front term ∧
        Continues limits term behind terms := by
  constructor
  · intro h
    cases h with
    | term hterm => exact ⟨_, _, [], (List.append_nil _).symm, hterm, .nil⟩
    | chain hterm hop hmore => exact ⟨_, _, _, rfl, hterm, .chain hop hmore⟩
  · rintro ⟨front, term, behind, rfl, hterm, hcontinues⟩
    cases hcontinues with
    | nil => exact (List.append_nil front).symm ▸ .term hterm
    | chain hop hmore => exact .chain hterm hop hmore

namespace Reader

/-- Symbols complete a group, `kept` of whose dice are kept: they are qualifiers, and what
continues the term behind them. -/
def CompletesGroup (limits : Limits) (group : DiceGroup) (kept : Nat) (all : List Symbol)
    (terms : List Term) : Prop :=
  ∃ front behind qualifiers, all = front ++ behind ∧
    WritesQualifiers group.sides.toNat kept front qualifiers ∧
    Continues limits (.dice { group with qualifiers := group.qualifiers ++ qualifiers })
      behind terms

/-- Symbols complete a group behind its `d`. -/
def CompletesSides (limits : Limits) (count : UInt32) (count_pos : 0 < count)
    (all : List Symbol) (terms : List Term) : Prop :=
  ∃ symbol behind sides, all = symbol :: behind ∧ WritesSides limits symbol sides ∧
    CompletesGroup limits ⟨count, sides, [], count_pos⟩ count.toNat behind terms

/-- Symbols complete what a state of the reader has seen of a term to an expression. -/
def Completes (limits : Limits) : Reader → List Symbol → List Term → Prop
  | start, all, terms | term, all, terms => Writes limits all terms
  | number n _, all, terms =>
    (∃ value : Amount, value.toInt = n ∧ Continues limits (.constant value) all terms) ∨
      ∃ (count : UInt32) (count_pos : 0 < count) (value : Nat) (behind : List Symbol),
        count.toNat = n ∧ n ≤ limits.maxDice.toNat ∧ all = ⟨.dice, value⟩ :: behind ∧
          CompletesSides limits count count_pos behind terms
  | sides count count_pos, all, terms => CompletesSides limits count count_pos all terms
  | group g kept, all, terms => CompletesGroup limits g kept all terms
  | marked g kept marker _, all, terms =>
    (∃ qualifier, marker.alone? = some qualifier ∧
      CompletesGroup limits (g.qualify qualifier) kept all terms) ∨
      ∃ n behind qualifier, all = ⟨.integer, n⟩ :: behind ∧
        marker.withNumber g.sides kept n = .ok qualifier ∧
          CompletesGroup limits (g.qualify qualifier) (qualifier.keptAfter kept) behind terms

/-- Symbols complete what a move hands out and the state that it leads to. -/
def Leads (limits : Limits) (move : Move) (all : List Symbol) (terms : List Term) : Prop :=
  ∃ complete next rest, move = .ok (complete, next) ∧ next.Completes limits all rest ∧
    terms = complete ++ rest

@[simp] theorem not_leads_error {objection : Objection} {all : List Symbol}
    {terms : List Term} : ¬ Leads limits (.error objection) all terms := by
  rintro ⟨_, _, _, h, _⟩
  cases h

@[simp] theorem leads_ok_nil {next : Reader} {all : List Symbol} {terms : List Term} :
    Leads limits (.ok ([], next)) all terms ↔ next.Completes limits all terms := by
  constructor
  · rintro ⟨_, _, _, h, hnext, rfl⟩
    cases h
    exact hnext
  · exact fun h => ⟨[], next, terms, rfl, h, rfl⟩

/-- A move that first makes a term leads on from every term that it can make. -/
theorem leads_bind {first : Except Objection Term} {move : Term → Move} {all : List Symbol}
    {terms : List Term} :
    Leads limits (first >>= move) all terms ↔
      ∃ term, first = .ok term ∧ Leads limits (move term) all terms := by
  constructor
  · rintro ⟨complete, next, rest, hmove, hnext, hterms⟩
    obtain ⟨term, hterm, hmove⟩ := bind_eq_ok_iff.mp hmove
    exact ⟨term, hterm, complete, next, rest, hmove, hnext, hterms⟩
  · rintro ⟨term, hterm, complete, next, rest, hmove, hnext, hterms⟩
    exact ⟨complete, next, rest, bind_eq_ok_iff.mpr ⟨term, hterm, hmove⟩, hnext, hterms⟩

/-! ### One symbol in each state -/

/-- Behind a complete term only an operator leads on. -/
theorem continues_cons (term : Term) (index : Nat) (symbol : Symbol) (all : List Symbol)
    (terms : List Term) :
    Continues limits term (symbol :: all) terms ↔
      Leads limits (afterTerm term index symbol) all terms := by
  constructor
  · intro h
    cases h with
    | chain hop hmore =>
        cases hop with
        | plus | minus => exact ⟨_, _, _, rfl, hmore, rfl⟩
  · rintro ⟨complete, next, rest, hmove, hnext, rfl⟩
    obtain ⟨kind, value⟩ := symbol
    rw [afterTerm.eq_def] at hmove
    split at hmove
    · next hkind =>
        cases hkind
        cases hmove
        exact .chain .plus hnext
    · next hkind =>
        cases hkind
        cases hmove
        exact .chain .minus hnext
    · rw [Symbol.unexpected.eq_def] at hmove
      split at hmove <;> cases hmove

/-- The first symbol of an expression is a number or the `d` of a group. -/
theorem writes_cons (index : Nat) (symbol : Symbol) (all : List Symbol) (terms : List Term) :
    Writes limits (symbol :: all) terms ↔
      Leads limits (beginTerm index symbol) all terms := by
  have hsize : UInt64.size = 2 ^ 64 := rfl
  rw [writes_iff_continues]
  constructor
  · rintro ⟨front, term, behind, hall, hterm, hcontinues⟩
    cases hterm with
    | @constant n value hvalue hmax =>
        obtain ⟨rfl, rfl⟩ := List.cons.inj hall
        simp only [beginTerm, if_pos (show n < UInt64.size by omega), leads_ok_nil]
        exact .inl ⟨value, hvalue, hcontinues⟩
    | @dice front quals value symbol group hcount hsides hquals =>
        obtain ⟨count, sides, qualifiers, count_pos⟩ := group
        have hcompletes : CompletesSides limits count count_pos (symbol :: quals ++ behind)
            terms :=
          ⟨symbol, _, sides, rfl, hsides, quals, behind, qualifiers, rfl, hquals, hcontinues⟩
        cases hcount with
        | omitted =>
            obtain ⟨rfl, rfl⟩ := List.cons.inj hall
            exact leads_ok_nil.mpr hcompletes
        | @number n _ hn hpos hmax =>
            obtain ⟨rfl, rfl⟩ := List.cons.inj hall
            have hlt := limits.maxDice.toNat_lt
            simp only [beginTerm, if_pos (show n < UInt64.size by omega), leads_ok_nil]
            exact .inr ⟨count, count_pos, value, _, hn, hmax, rfl, hcompletes⟩
  · intro h
    obtain ⟨kind, n⟩ := symbol
    rw [beginTerm.eq_def] at h
    split at h
    · next hkind =>
        cases hkind
        obtain ⟨symbol, _, sides, rfl, hsides, quals, behind, qualifiers, rfl, hquals,
          hcontinues⟩ := leads_ok_nil.mp h
        exact ⟨_, _, behind, rfl, .dice .omitted hsides hquals, hcontinues⟩
    · next hkind =>
        cases hkind
        split at h
        · rcases leads_ok_nil.mp h with ⟨value, hvalue, hcontinues⟩ |
            ⟨count, count_pos, _, _, hn, hmax, rfl, symbol, _, sides, rfl, hsides, quals,
              behind, qualifiers, rfl, hquals, hcontinues⟩
          · have hterm : WritesTerm limits [⟨.integer, n⟩] (.constant value) :=
              .constant hvalue (le_of_toInt_eq hvalue)
            exact ⟨_, _, all, rfl, hterm, hcontinues⟩
          · have hpos : 1 ≤ n := Nat.lt_of_lt_of_eq (UInt32.lt_iff_toNat_lt.mp count_pos) hn
            exact ⟨_, _, behind, rfl, .dice (.number hn hpos hmax) hsides hquals, hcontinues⟩
        · exact absurd h not_leads_error
    · exact absurd h not_leads_error

/-- A number of sides within the limit leads to the group that it completes. -/
theorem leads_withSides {count : UInt32} {count_pos : 0 < count} {index sides : Nat}
    {all : List Symbol} {terms : List Term} :
    Leads limits (readSides.withSides limits count count_pos index sides) all terms ↔
      sides ≤ limits.maxSides.toNat ∧
        CompletesGroup limits ⟨count, .ofNat sides, [], count_pos⟩ count.toNat all terms := by
  rw [readSides.withSides.eq_def]
  split
  · next hmax =>
      have hle : ¬ sides ≤ limits.maxSides.toNat := by omega
      simp only [not_leads_error, hle, false_and]
  · next hmax =>
      have hle : sides ≤ limits.maxSides.toNat := by omega
      rw [leads_ok_nil]
      exact ⟨fun h => ⟨hle, h⟩, And.right⟩

/-- Behind the `d` of a group only a number of sides leads on. -/
theorem completesSides_cons (count : UInt32) (count_pos : 0 < count) (index : Nat)
    (symbol : Symbol) (all : List Symbol) (terms : List Term) :
    CompletesSides limits count count_pos (symbol :: all) terms ↔
      Leads limits (readSides limits count count_pos index symbol) all terms := by
  have hsize : UInt64.size = 2 ^ 64 := rfl
  constructor
  · rintro ⟨_, _, sides, hall, hsides, hgroup⟩
    obtain ⟨rfl, rfl⟩ := List.cons.inj hall
    cases hsides with
    | number hn htwo hmax =>
        subst hn
        have hlt := sides.toNat_lt
        simp only [readSides, if_neg (show ¬ UInt64.size ≤ sides.toNat by omega),
          if_neg (Nat.not_lt.mpr htwo), leads_withSides, UInt32.ofNat_toNat]
        exact ⟨hmax, hgroup⟩
    | percent hmax => exact leads_withSides.mpr ⟨hmax, hgroup⟩
  · intro h
    obtain ⟨kind, n⟩ := symbol
    rw [readSides.eq_def] at h
    split at h
    · next hkind =>
        cases hkind
        obtain ⟨hmax, hgroup⟩ := leads_withSides.mp h
        exact ⟨_, all, 100, rfl, .percent hmax, hgroup⟩
    · next hkind =>
        cases hkind
        split at h
        · exact absurd h not_leads_error
        split at h
        · exact absurd h not_leads_error
        · next htwo =>
            obtain ⟨hmax, hgroup⟩ := leads_withSides.mp h
            have hsides : WritesSides limits ⟨.integer, n⟩ (.ofNat n) :=
              .number (toNat_ofNat_of_le hmax) (Nat.not_lt.mp htwo) hmax
            exact ⟨_, all, .ofNat n, rfl, hsides, hgroup⟩
    · exact absurd h not_leads_error
    · exact absurd h not_leads_error

/-- A number is a constant exactly when an amount holds it. -/
theorem constant_eq_ok_iff {n index : Nat} {term : Term} :
    constant n index = .ok term ↔ ∃ value : Amount, value.toInt = n ∧ term = .constant value := by
  have hmax := Int64.toInt_maxValue
  rw [constant.eq_def]
  constructor
  · intro h
    split at h
    · next hn =>
        cases h
        exact ⟨.ofNat n, Int64.toInt_ofNat_of_lt (by omega), rfl⟩
    · cases h
  · rintro ⟨value, hvalue, rfl⟩
    have hle := le_of_toInt_eq hvalue
    rw [if_pos (by omega)]
    refine congrArg (fun value => Except.ok (Term.constant value)) (Int64.toInt_inj.mp ?_)
    rw [Int64.toInt_ofNat_of_lt (by omega), hvalue]

/-- Behind a number a `d` makes a count of it, and an operator a constant. -/
theorem number_cons (n numberIndex index : Nat) (symbol : Symbol) (all : List Symbol)
    (terms : List Term) :
    (number n numberIndex).Completes limits (symbol :: all) terms ↔
      Leads limits (afterNumber limits n numberIndex index symbol) all terms := by
  obtain ⟨kind, v⟩ := symbol
  by_cases hkind : kind = .dice
  · subst hkind
    constructor
    · rintro (⟨value, -, hcontinues⟩ | ⟨count, count_pos, value, _, hn, hmax, hall, h⟩)
      · cases hcontinues with
        | chain hop => cases hop
      · obtain ⟨-, rfl⟩ := List.cons.inj hall
        subst hn
        have hne : count.toNat ≠ 0 := Nat.pos_iff_ne_zero.mp (UInt32.lt_iff_toNat_lt.mp count_pos)
        simp only [afterNumber, dif_neg hne, dif_neg (Nat.not_lt.mpr hmax), leads_ok_nil,
          UInt32.ofNatLT_toNat]
        exact h
    · intro h
      simp only [afterNumber] at h
      split at h
      · exact absurd h not_leads_error
      split at h
      · exact absurd h not_leads_error
      · next hne hle =>
          exact .inr ⟨_, _, v, all, UInt32.toNat_ofNatLT, Nat.not_lt.mp hle, rfl,
            leads_ok_nil.mp h⟩
  · have hmove : afterNumber limits n numberIndex index ⟨kind, v⟩ =
        constant n numberIndex >>= fun term => afterTerm term index ⟨kind, v⟩ := by
      cases kind with
      | dice => exact absurd rfl hkind
      | _ => rfl
    rw [hmove, leads_bind]
    constructor
    · rintro (⟨value, hvalue, hcontinues⟩ | ⟨_, _, _, _, _, _, hall, -⟩)
      · exact ⟨.constant value, constant_eq_ok_iff.mpr ⟨value, hvalue, rfl⟩,
          (continues_cons _ index _ _ _).mp hcontinues⟩
      · cases hall
        exact absurd rfl hkind
    · rintro ⟨_, hconstant, hleads⟩
      obtain ⟨value, hvalue, rfl⟩ := constant_eq_ok_iff.mp hconstant
      exact .inl ⟨value, hvalue, (continues_cons _ index _ _ _).mpr hleads⟩

/-- A group is completed by what continues it, or by a qualifier and what completes the
group with it. -/
theorem completesGroup_iff {group : DiceGroup} {kept : Nat} {all : List Symbol}
    {terms : List Term} :
    CompletesGroup limits group kept all terms ↔
      Continues limits (.dice group) all terms ∨
        ∃ front behind qualifier, all = front ++ behind ∧
          WritesQualifier group.sides.toNat kept front qualifier ∧
          CompletesGroup limits (group.qualify qualifier) (qualifier.keptAfter kept) behind
            terms := by
  constructor
  · rintro ⟨front, behind, qualifiers, rfl, hquals, hcontinues⟩
    cases hquals with
    | nil => exact .inl (by simpa only [List.append_nil, List.nil_append] using hcontinues)
    | @cons _ front more qualifier qualifiers hqual hmore =>
        refine .inr ⟨front, more ++ behind, qualifier, List.append_assoc .., hqual, more, behind,
          qualifiers, rfl, hmore, ?_⟩
        simpa only [DiceGroup.qualify, List.append_assoc, List.singleton_append]
          using hcontinues
  · rintro (hcontinues | ⟨front, _, qualifier, rfl, hqual, more, behind, qualifiers, rfl, hmore,
      hcontinues⟩)
    · exact ⟨[], all, [], rfl, .nil, by simpa only [List.append_nil] using hcontinues⟩
    · refine ⟨front ++ more, behind, qualifier :: qualifiers, (List.append_assoc ..).symm,
        .cons hqual hmore, ?_⟩
      simpa only [DiceGroup.qualify, List.append_assoc, List.singleton_append]
        using hcontinues

/-- Behind a group a marker or an operator leads on. -/
theorem completesGroup_cons (group : DiceGroup) {kept : Nat} (hsides : 2 ≤ group.sides.toNat)
    (hkept : kept < UInt32.size) (index : Nat) (symbol : Symbol) (all : List Symbol)
    (terms : List Term) :
    CompletesGroup limits group kept (symbol :: all) terms ↔
      Leads limits (afterGroup group kept index symbol) all terms := by
  rw [completesGroup_iff]
  cases hmarker : Marker.ofKind symbol.kind with
  | none =>
      rw [afterGroup, hmarker, ← continues_cons]
      refine or_iff_left ?_
      rintro ⟨front, behind, qualifier, hall, hqual, -⟩
      obtain ⟨kind, value, marker, hsome, ⟨rfl, -⟩ | ⟨n, rfl, -⟩⟩ :=
        (writesQualifier_iff hsides hkept).mp hqual
      all_goals
        obtain ⟨rfl, -⟩ := List.cons.inj hall
        exact nomatch hmarker.symm.trans hsome
  | some marker =>
      rw [afterGroup, hmarker, leads_ok_nil]
      constructor
      · rintro (hcontinues | ⟨front, behind, qualifier, hall, hqual, hgroup⟩)
        · cases hcontinues with
          | chain hop => cases hop <;> cases hmarker
        · obtain ⟨kind, value, marker', hsome, ⟨rfl, halone⟩ | ⟨n, rfl, hnumber⟩⟩ :=
            (writesQualifier_iff hsides hkept).mp hqual
          all_goals
            obtain ⟨rfl, rfl⟩ := List.cons.inj hall
            obtain rfl := Option.some.inj (hmarker.symm.trans hsome)
          · rw [keptAfter_of_alone halone] at hgroup
            exact .inl ⟨qualifier, halone, hgroup⟩
          · exact .inr ⟨n, behind, qualifier, rfl, hnumber, hgroup⟩
      · rintro (⟨qualifier, halone, hgroup⟩ | ⟨n, behind, qualifier, rfl, hnumber, hgroup⟩)
        · refine .inr ⟨[symbol], all, qualifier, rfl, (writesQualifier_iff hsides hkept).mpr
            ⟨_, _, marker, hmarker, .inl ⟨rfl, halone⟩⟩, ?_⟩
          rwa [keptAfter_of_alone halone]
        · exact .inr ⟨[symbol, ⟨.integer, n⟩], behind, qualifier, rfl,
            (writesQualifier_iff hsides hkept).mpr
              ⟨_, _, marker, hmarker, .inr ⟨n, rfl, hnumber⟩⟩, hgroup⟩

/-- Behind a marker a number leads on that the marker takes, and, if the marker needs no
number, whatever leads on behind the group. -/
theorem marked_cons {group : DiceGroup} {kept : Nat} (hsides : 2 ≤ group.sides.toNat)
    (hkept : kept < UInt32.size) (marker : Marker) (markerIndex index : Nat) (symbol : Symbol)
    (all : List Symbol) (terms : List Term) :
    (marked group kept marker markerIndex).Completes limits (symbol :: all) terms ↔
      Leads limits (afterMarker group kept marker markerIndex index symbol) all terms := by
  have hsize : UInt32.size = 2 ^ 32 ∧ UInt64.size = 2 ^ 64 := ⟨rfl, rfl⟩
  obtain ⟨kind, value⟩ := symbol
  have hqualify (qualifier : Qualifier) :
      CompletesGroup limits (group.qualify qualifier) kept (⟨kind, value⟩ :: all) terms ↔
        Leads limits (afterGroup (group.qualify qualifier) kept index ⟨kind, value⟩) all terms :=
    completesGroup_cons (group.qualify qualifier) hsides hkept index _ _ _
  by_cases hkind : kind = .integer
  · subst hkind
    simp only [afterMarker, if_true]
    constructor
    · rintro (⟨qualifier, -, hgroup⟩ | ⟨n, behind, qualifier, hall, hnumber, hgroup⟩)
      · have hleads := (hqualify qualifier).mp hgroup
        exact absurd hleads not_leads_error
      · cases hall
        have hlt := lt_size_of_withNumber hkept hnumber
        simp only [if_neg (show ¬ UInt64.size ≤ value by omega), hnumber, leads_ok_nil]
        exact hgroup
    · intro h
      split at h
      · exact absurd h not_leads_error
      split at h
      · next qualifier hnumber =>
          exact .inr ⟨value, all, qualifier, rfl, hnumber, leads_ok_nil.mp h⟩
      · exact absurd h not_leads_error
  · simp only [afterMarker, if_neg hkind]
    constructor
    · rintro (⟨qualifier, halone, hgroup⟩ | ⟨n, behind, qualifier, hall, -⟩)
      · rw [halone]
        exact (hqualify qualifier).mp hgroup
      · cases hall
        exact absurd rfl hkind
    · intro h
      split at h
      · next qualifier halone =>
          exact .inl ⟨qualifier, halone, (hqualify qualifier).mpr h⟩
      · exact absurd h not_leads_error

/-- What completes a state, taken apart at its first symbol, is the step of the reader. -/
theorem completes_cons {reader : Reader} (hreader : reader.Possible) (index : Nat)
    (symbol : Symbol) (all : List Symbol) (terms : List Term) :
    reader.Completes limits (symbol :: all) terms ↔
      Leads limits (reader.step limits index symbol) all terms := by
  cases reader with
  | start => exact writes_cons index symbol all terms
  | term => exact writes_cons index symbol all terms
  | number n numberIndex => exact number_cons n numberIndex index symbol all terms
  | sides count count_pos => exact completesSides_cons count count_pos index symbol all terms
  | group g kept => exact completesGroup_cons g hreader.1 hreader.2 index symbol all terms
  | marked g kept marker markerIndex =>
      exact marked_cons hreader.1 hreader.2 marker markerIndex index symbol all terms

/-- Nothing is left to write behind a complete term. -/
theorem continues_nil {term : Term} {terms : List Term} :
    Continues limits term [] terms ↔ terms = [term] := by
  constructor
  · intro h
    cases h
    rfl
  · rintro rfl
    exact .nil

/-- An expression is not empty. -/
theorem not_writes_nil {terms : List Term} : ¬ Writes limits [] terms := by
  rw [writes_iff_continues]
  rintro ⟨front, term, behind, hall, hterm, -⟩
  obtain ⟨rfl, -⟩ := List.append_eq_nil_iff.mp hall.symm
  generalize hfront : ([] : List Symbol) = front at hterm
  cases hterm with
  | constant => cases hfront
  | dice => exact List.append_ne_nil_of_right_ne_nil _ (List.cons_ne_nil _ _) hfront.symm

/-- Nothing is left to write behind a complete group. -/
theorem completesGroup_nil {group : DiceGroup} {kept : Nat} {terms : List Term} :
    CompletesGroup limits group kept [] terms ↔ terms = [.dice group] := by
  rw [completesGroup_iff, continues_nil]
  refine or_iff_left ?_
  rintro ⟨front, behind, qualifier, hall, hqual, -⟩
  obtain ⟨rfl, -⟩ := List.append_eq_nil_iff.mp hall.symm
  cases hqual

/-- What nothing completes any more is what the reader finishes. -/
theorem completes_nil {reader : Reader} {terms : List Term} :
    reader.Completes limits [] terms ↔ reader.finish = .ok terms := by
  cases reader with
  | start | term => exact iff_of_false not_writes_nil nofun
  | number n index =>
      have hfinish : (number n index).finish = constant n index >>= fun term => .ok [term] := rfl
      rw [hfinish, bind_eq_ok_iff]
      constructor
      · rintro (⟨value, hvalue, hcontinues⟩ | ⟨_, _, _, _, _, _, hall, -⟩)
        · rw [continues_nil.mp hcontinues]
          exact ⟨_, constant_eq_ok_iff.mpr ⟨value, hvalue, rfl⟩, rfl⟩
        · cases hall
      · rintro ⟨_, hconstant, hterms⟩
        obtain ⟨value, hvalue, rfl⟩ := constant_eq_ok_iff.mp hconstant
        cases hterms
        exact .inl ⟨value, hvalue, .nil⟩
  | sides count count_pos =>
      refine iff_of_false ?_ nofun
      rintro ⟨_, _, _, hall, -⟩
      cases hall
  | group g kept =>
      rw [Completes, completesGroup_nil, finish, Except.ok.injEq, eq_comm]
  | marked g kept marker index =>
      simp only [finish]
      constructor
      · rintro (⟨qualifier, halone, hgroup⟩ | ⟨_, _, _, hall, -⟩)
        · rw [halone, completesGroup_nil.mp hgroup]
        · cases hall
      · intro h
        split at h
        · next qualifier halone =>
            cases h
            exact .inl ⟨qualifier, halone, completesGroup_nil.mpr rfl⟩
        · cases h

/-! ### All symbols -/

/-- The reader accepts exactly what completes its state. Induction on the symbols: each one
is a step of the reader, and takes what completes the state before it apart. -/
theorem read_eq_ok_iff {reader : Reader} (h : reader.Possible) (index : Nat)
    (all : List Symbol) (terms : List Term) :
    reader.read limits index all = .ok terms ↔ reader.Completes limits all terms := by
  induction all generalizing reader index terms with
  | nil => rw [read, completes_nil]
  | cons symbol all ih =>
      rw [completes_cons h index, read, bind_eq_ok_iff]
      constructor
      · rintro ⟨⟨complete, next⟩, hmove, hread⟩
        obtain ⟨rest, hrest, hterms⟩ := bind_eq_ok_iff.mp hread
        have hnext := staysPossible_step h index symbol complete next hmove
        exact ⟨complete, next, rest, hmove, (ih hnext _ _).mp hrest, (Except.ok.inj hterms).symm⟩
      · rintro ⟨complete, next, rest, hmove, hcompletes, rfl⟩
        have hnext := staysPossible_step h index symbol complete next hmove
        exact ⟨(complete, next), hmove,
          bind_eq_ok_iff.mpr ⟨rest, (ih hnext _ _).mpr hcompletes, rfl⟩⟩

end Reader

/-! ### Texts -/

/-- The reader accepts exactly the expressions of the grammar. -/
theorem read_start_eq_ok_iff {index : Nat} {all : List Symbol} {terms : List Term} :
    Reader.start.read limits index all = .ok terms ↔ Writes limits all terms := by
  have hstart : Reader.start.Possible := trivial
  exact Reader.read_eq_ok_iff hstart index all terms

/-- A text is parsed exactly to the terms that its symbols write. -/
theorem parse_eq_ok_iff {text : String} {expression : Expression} :
    parse limits text = .ok expression ↔
      expression.written = text ∧ Writes limits (symbols text.toList) expression.terms := by
  rw [symbols_eq_map, ← @read_start_eq_ok_iff limits 0, parse, parseTerms]
  obtain ⟨written, terms⟩ := expression
  split
  · next terms' hread =>
      rw [hread]
      constructor
      · intro h
        cases h
        exact ⟨rfl, rfl⟩
      · rintro ⟨rfl, h⟩
        cases h
        rfl
  · next objection hread =>
      rw [hread]
      exact iff_of_false nofun fun h => nomatch h.2

/-- **A text is parsed exactly to the terms that it writes.** Parsing succeeds exactly when no
token of the text is an unknown character and its symbols derive terms in the grammar, and
then these are the terms. -/
theorem parse_eq_ok_iff_known_and_writes (limits : Limits) (text : String)
    (expression : Expression) :
    parse limits text = .ok expression ↔
      expression.written = text ∧
        (∀ token ∈ tokenize text.toList, token.kind ≠ .unknown) ∧
        Writes limits (symbols text.toList) expression.terms := by
  rw [parse_eq_ok_iff]
  refine and_congr_right fun _ => ⟨fun h => ⟨fun token htoken => ?_, h⟩, And.right⟩
  exact h.kind_ne_unknown _ (List.mem_map_of_mem htoken)

end Dicebox
