import Dicebox.Notation.Reader

/-!
# What an objection is about

Every objection of the reader is about one of three kinds of stretch: the end of the notation, one
token, or a qualifier from its first token to its number, which is the token right behind it. The
cause decides which, with one exception: sides are missed at the end or at another token.

The places in an objection are numbers of tokens that the machine has carried along in its state.
They are right because a state only remembers the last token it has read, a number or the first
token of a qualifier, which is the invariant here.

## Main definitions

* `Stretch`, `Cause.stretches` — the kinds of stretch, and those that a cause can be about.
* `Objection.Located` — an objection is about tokens that are there, and of the right kinds.
* `Reader.Keeps` — a move keeps an invariant, or raises an objection of a kind.
* `Reader.Remembers` — what a state knows of the last symbol.

## Main results

* `Reader.post_of_read_eq_error` — what every step keeps or objects to, a whole run does.
* `Reader.placed_step` — a step keeps the invariant, or raises a located objection.
* `Reader.located_of_start_read_eq_error` — all objections to notation are located.
-/

namespace Dicebox

/-- The stretches of notation that an objection can be about. -/
inductive Stretch where
  /-- The end of the notation, where a token is missing. -/
  | theEnd
  /-- One token. -/
  | token
  /-- A qualifier, from its first token to its number. -/
  | qualifier
  deriving DecidableEq, Repr

/-- The stretches that a cause can be about. -/
def Cause.stretches : Cause → List Stretch
  | nothingToRoll | unexpectedEnd _ => [.theEnd]
  | missingSides => [.theEnd, .token]
  | unknownCharacter | unexpected _ _ | numberTooLarge | noDice | tooFewSides _
  | tooManyDice _ _ | tooManySides _ _ => [.token]
  | emptySelection _ | selectsAllDice _ _ _ | rerollThreshold _ _
  | explodeThreshold _ _ => [.qualifier]

/-- An objection to notation is located: it is about its end, one of its symbols, or a symbol that
begins a qualifier and a number right behind it, and its cause is about such a stretch. -/
inductive Objection.Located (all : List Symbol) : Objection → Prop
  | atEnd {cause : Cause} : .theEnd ∈ cause.stretches → Located all ⟨cause, .atEnd⟩
  | onToken {i : Nat} {symbol : Symbol} {cause : Cause} :
      all[i]? = some symbol → .token ∈ cause.stretches →
      (cause = .unknownCharacter → symbol.kind = .unknown) → Located all (.onToken i cause)
  | onQualifier {i : Nat} {first number : Symbol} {cause : Cause} :
      all[i]? = some first → (Marker.ofKind first.kind).isSome →
      all[i + 1]? = some number → number.kind = .integer →
      .qualifier ∈ cause.stretches → Located all ⟨cause, .tokens i (i + 1)⟩

/-- What a marker objects to in its number is about the whole qualifier. -/
theorem Marker.qualifier_mem_stretches {sides : UInt32} {kept n : Nat} {marker : Marker}
    {cause : Cause} (h : marker.withNumber sides kept n = .error cause) :
    .qualifier ∈ cause.stretches := by
  rw [withNumber.eq_def] at h
  split at h
  · split at h
    · cases h
      exact List.mem_singleton_self _
    split at h
    · cases h
      exact List.mem_singleton_self _
    · cases h
  · split at h
    · cases h
      exact List.mem_singleton_self _
    · cases h
  · split at h
    · cases h
      exact List.mem_singleton_self _
    · cases h

variable {limits : Limits} {all : List Symbol} {index : Nat} {symbol : Symbol}

namespace Objection

/-- An objection to one token that is there and not for its being unknown is located. -/
theorem located_onToken {i : Nat} {cause : Cause} (hsymbol : all[i]? = some symbol)
    (hcause : .token ∈ cause.stretches) (hne : cause ≠ .unknownCharacter) :
    (Objection.onToken i cause).Located all :=
  .onToken hsymbol hcause fun heq => absurd heq hne

/-- An objection to a symbol because only others may stand there is located. -/
theorem located_unexpected (hsymbol : all[index]? = some symbol) (expected : List TokenKind) :
    (symbol.unexpected index expected).Located all := by
  rw [Symbol.unexpected]
  split
  · next hunknown => exact .onToken hsymbol (List.mem_singleton_self _) fun _ => hunknown
  · exact located_onToken hsymbol (List.mem_singleton_self _) nofun

end Objection

namespace Reader

/-- A move leads to a state with an invariant of the symbols that were read, or to an objection of
a kind. -/
def Keeps (inv : List Symbol → Reader → Prop) (post : Objection → Prop) (seen : List Symbol) :
    Move → Prop
  | .ok (_, next) => inv seen next
  | .error objection => post objection

/-- If every step keeps an invariant or objects in some way, and so does the end, then from a state
with the invariant all symbols are read or objected to in that way. Induction on the symbols: behind
its step each of them counts as seen. -/
theorem post_of_read_eq_error {inv : List Symbol → Reader → Prop} {post : Objection → Prop}
    (hstep : ∀ (seen : List Symbol) (symbol : Symbol) (more : List Symbol) (reader : Reader),
      all = seen ++ symbol :: more → inv seen reader →
        Keeps inv post (seen ++ [symbol]) (reader.step limits seen.length symbol))
    (hfinish : ∀ (reader : Reader) (objection : Objection),
      inv all reader → reader.finish = .error objection → post objection)
    {reader : Reader} {seen more : List Symbol} (hall : all = seen ++ more)
    (hreader : inv seen reader) {objection : Objection}
    (h : reader.read limits seen.length more = .error objection) : post objection := by
  induction more generalizing reader seen with
  | nil =>
      rw [List.append_nil] at hall
      exact hfinish reader objection (hall ▸ hreader) h
  | cons symbol more ih =>
      have hmoved := hstep seen symbol more reader hall hreader
      rw [read] at h
      cases hmove : reader.step limits seen.length symbol with
      | error other =>
          rw [hmove] at h hmoved
          cases h
          exact hmoved
      | ok move =>
          obtain ⟨complete, next⟩ := move
          rw [hmove] at h hmoved
          have hseen : all = (seen ++ [symbol]) ++ more := by
            rw [hall, List.append_assoc, List.singleton_append]
          have hlength : seen.length + 1 = (seen ++ [symbol]).length := by
            rw [List.length_append, List.length_singleton]
          rw [hlength] at h
          cases hread : next.read limits (seen ++ [symbol]).length more with
          | ok terms =>
              simp only [bind, Except.bind, hread, pure, Except.pure] at h
              cases h
          | error other =>
              simp only [bind, Except.bind, hread] at h
              cases h
              exact ih hseen hmoved hread

/-- In front of token `index`, the number or the first token of a qualifier that a state remembers
is the token before it. -/
def Remembers (all : List Symbol) (index : Nat) : Reader → Prop
  | number _ i => i + 1 = index ∧ ∃ symbol, all[i]? = some symbol
  | marked _ _ _ i => i + 1 = index ∧ ∃ symbol, all[i]? = some symbol ∧
      (Marker.ofKind symbol.kind).isSome
  | _ => True

/-- A move on token `index` leads to a state that remembers it, or to a located objection. -/
def Placed (all : List Symbol) (index : Nat) : Move → Prop
  | .ok (_, next) => next.Remembers all (index + 1)
  | .error objection => objection.Located all

/-- At the beginning of a term. -/
theorem placed_beginTerm (hsymbol : all[index]? = some symbol) :
    Placed all index (beginTerm index symbol) := by
  rw [beginTerm.eq_def]
  split
  · trivial
  · split
    · exact ⟨rfl, symbol, hsymbol⟩
    · exact Objection.located_onToken hsymbol (List.mem_singleton_self _) nofun
  · exact Objection.located_unexpected hsymbol _

/-- Behind a complete term. -/
theorem placed_afterTerm (term : Term) (hsymbol : all[index]? = some symbol) :
    Placed all index (afterTerm term index symbol) := by
  rw [afterTerm.eq_def]
  split
  · trivial
  · trivial
  · exact Objection.located_unexpected hsymbol _

/-- A number that is too large for a constant is itself what the objection is about. -/
theorem located_of_constant_eq_error {n i : Nat} {objection : Objection}
    (hsymbol : all[i]? = some symbol) (h : constant n i = .error objection) :
    objection.Located all := by
  rw [constant] at h
  split at h
  · cases h
  · cases h
    exact Objection.located_onToken hsymbol (List.mem_singleton_self _) nofun

/-- Behind a number. -/
theorem placed_afterNumber {n i : Nat} (hreader : (number n i).Remembers all index)
    (hsymbol : all[index]? = some symbol) :
    Placed all index (afterNumber limits n i index symbol) := by
  obtain ⟨-, count, hcount⟩ := hreader
  rw [afterNumber.eq_def]
  split
  · split
    · exact Objection.located_onToken hcount (List.mem_singleton_self _) nofun
    split
    · exact Objection.located_onToken hcount (List.mem_singleton_self _) nofun
    · trivial
  · cases hconstant : constant n i with
    | ok term => exact placed_afterTerm term hsymbol
    | error objection => exact located_of_constant_eq_error hcount hconstant

/-- Behind the `d` of a group. -/
theorem placed_readSides (count : UInt32) (count_pos : 0 < count)
    (hsymbol : all[index]? = some symbol) :
    Placed all index (readSides limits count count_pos index symbol) := by
  have hwith (sides : Nat) :
      Placed all index (readSides.withSides limits count count_pos index sides) := by
    rw [readSides.withSides.eq_def]
    split
    · exact Objection.located_onToken hsymbol (List.mem_singleton_self _) nofun
    · trivial
  rw [readSides.eq_def]
  split
  · exact hwith 100
  · split
    · exact Objection.located_onToken hsymbol (List.mem_singleton_self _) nofun
    split
    · exact Objection.located_onToken hsymbol (List.mem_singleton_self _) nofun
    · exact hwith symbol.value
  · next hunknown => exact .onToken hsymbol (List.mem_singleton_self _) fun _ => hunknown
  · refine Objection.located_onToken hsymbol ?_ nofun
    exact List.mem_cons_of_mem _ (List.mem_singleton_self _)

/-- Behind a group. -/
theorem placed_afterGroup (group : DiceGroup) (kept : Nat)
    (hsymbol : all[index]? = some symbol) :
    Placed all index (afterGroup group kept index symbol) := by
  rw [afterGroup.eq_def]
  split
  · next marker hmarker => exact ⟨rfl, symbol, hsymbol, hmarker ▸ rfl⟩
  · exact placed_afterTerm _ hsymbol

/-- Behind the first token of a qualifier. -/
theorem placed_afterMarker {group : DiceGroup} {kept i : Nat} {marker : Marker}
    (hreader : (marked group kept marker i).Remembers all index)
    (hsymbol : all[index]? = some symbol) :
    Placed all index (afterMarker group kept marker i index symbol) := by
  obtain ⟨rfl, first, hfirst, hmarker⟩ := hreader
  rw [afterMarker.eq_def]
  split
  · next hinteger =>
      split
      · exact Objection.located_onToken hsymbol (List.mem_singleton_self _) nofun
      split
      · trivial
      · next cause hcause =>
          exact .onQualifier hfirst hmarker hsymbol hinteger
            (Marker.qualifier_mem_stretches hcause)
  · split
    · exact placed_afterGroup _ kept hsymbol
    · exact Objection.located_unexpected hsymbol _

/-- A step from a state that remembers the token before leads to one that remembers the token, or
to a located objection. -/
theorem placed_step {reader : Reader} (hreader : reader.Remembers all index)
    (hsymbol : all[index]? = some symbol) :
    Placed all index (reader.step limits index symbol) := by
  cases reader with
  | start | term => exact placed_beginTerm hsymbol
  | number n i => exact placed_afterNumber hreader hsymbol
  | sides count count_pos => exact placed_readSides count count_pos hsymbol
  | group g kept => exact placed_afterGroup g kept hsymbol
  | marked g kept marker i => exact placed_afterMarker hreader hsymbol

/-- What a state objects to at the end is located. -/
theorem located_of_finish_eq_error {reader : Reader} (hreader : reader.Remembers all index)
    {objection : Objection} (h : reader.finish = .error objection) : objection.Located all := by
  cases reader with
  | start | term | sides =>
      cases h
      exact .atEnd List.mem_cons_self
  | number n i =>
      obtain ⟨-, symbol, hsymbol⟩ := hreader
      cases hconstant : constant n i with
      | ok term =>
          rw [finish, hconstant] at h
          cases h
      | error other =>
          rw [finish, hconstant] at h
          cases h
          exact located_of_constant_eq_error hsymbol hconstant
  | group => cases h
  | marked g kept marker i =>
      rw [finish] at h
      split at h
      · cases h
      · cases h
        exact .atEnd List.mem_cons_self

/-- From a state that remembers the token before, what is objected to in the symbols behind it is
located. -/
theorem located_of_read_eq_error {reader : Reader} {seen more : List Symbol}
    (hreader : reader.Remembers (seen ++ more) seen.length) {objection : Objection}
    (h : reader.read limits seen.length more = .error objection) :
    objection.Located (seen ++ more) := by
  have hstep (before : List Symbol) (symbol : Symbol) (behind : List Symbol) (reader : Reader)
      (hall : seen ++ more = before ++ symbol :: behind)
      (hreader : reader.Remembers (seen ++ more) before.length) :
      Keeps (fun before next => next.Remembers (seen ++ more) before.length)
        (Objection.Located (seen ++ more)) (before ++ [symbol])
        (reader.step limits before.length symbol) := by
    have hsymbol : (seen ++ more)[before.length]? = some symbol := by simp [hall]
    have hplaced : Placed (seen ++ more) before.length (reader.step limits before.length symbol) :=
      placed_step hreader hsymbol
    cases hmove : reader.step limits before.length symbol with
    | error other =>
        rw [hmove] at hplaced
        exact hplaced
    | ok move =>
        obtain ⟨complete, next⟩ := move
        rw [hmove] at hplaced
        change next.Remembers (seen ++ more) (before ++ [symbol]).length
        rw [List.length_append, List.length_singleton]
        exact hplaced
  exact post_of_read_eq_error hstep (fun _ _ hinv => located_of_finish_eq_error hinv) rfl hreader h

/-- **Every objection to notation is located.** -/
theorem located_of_start_read_eq_error {objection : Objection}
    (h : start.read limits 0 all = .error objection) : objection.Located all := by
  have hstart : start.Remembers ([] ++ all) ([] : List Symbol).length := trivial
  exact located_of_read_eq_error hstart h

end Reader

end Dicebox
