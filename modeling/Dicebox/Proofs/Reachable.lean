import Dicebox.Notation.Parse

/-!
# The states that the reader comes to

Not every state of the reader can be reached. Behind the sides of a group its dice have at
least two sides, and the number of dice that are kept is counted by a machine word, because
it starts at the count of the group and a selection puts another word or a smaller number in
its place. Every step keeps this, from the first state on.

## Main definitions

* `Reader.Possible` — what holds of the states that the reader comes to.

## Main results

* `Reader.staysPossible_step` — a step from a possible state leads to a possible state.
-/

namespace Dicebox

/-- A number up to a word is held by a word. -/
theorem toNat_ofNat_of_le {n : Nat} {bound : UInt32} (h : n ≤ bound.toNat) :
    (UInt32.ofNat n).toNat = n :=
  UInt32.toNat_ofNat_of_lt' (Nat.lt_of_le_of_lt h bound.toNat_lt)

/-- A computation that goes on with the value of another one succeeds with that value. -/
theorem bind_eq_ok_iff {ε α β : Type} {first : Except ε α} {next : α → Except ε β} {b : β} :
    first >>= next = .ok b ↔ ∃ a, first = .ok a ∧ next a = .ok b := by
  cases first with
  | error e => exact iff_of_false nofun nofun
  | ok a => exact ⟨fun h => ⟨a, rfl, h⟩, fun ⟨_, ha, h⟩ => Except.ok.inj ha ▸ h⟩

/-- A qualifier leaves no more dice kept than a word counts. -/
theorem keptAfter_lt_size {kept : Nat} (h : kept < UInt32.size) (qualifier : Qualifier) :
    qualifier.keptAfter kept < UInt32.size := by
  cases qualifier with
  | select which n =>
      have hlt : n.toNat < UInt32.size := n.toNat_lt
      cases which <;> simp only [Qualifier.keptAfter] <;> omega
  | reroll | explode => exact h

namespace Reader

variable {limits : Limits}

/-- The states that the reader comes to: dice have sides, and no more of them are kept than
a word counts. -/
def Possible : Reader → Prop
  | group g kept | marked g kept _ _ => 2 ≤ g.sides.toNat ∧ kept < UInt32.size
  | _ => True

/-- A move leads to a possible state, if it leads anywhere. -/
def StaysPossible (move : Move) : Prop :=
  ∀ complete next, move = .ok (complete, next) → next.Possible

/-- An objection leads nowhere. -/
@[simp] theorem staysPossible_error (objection : Objection) :
    StaysPossible (.error objection) :=
  nofun

@[simp] theorem staysPossible_ok {complete : List Term} {next : Reader} :
    StaysPossible (.ok (complete, next)) ↔ next.Possible := by
  constructor
  · exact fun h => h complete next rfl
  · intro h _ _ heq
    cases heq
    exact h

/-- Behind a complete term the reader comes to possible states. -/
theorem staysPossible_afterTerm (term : Term) (index : Nat) (symbol : Symbol) :
    StaysPossible (afterTerm term index symbol) := by
  rw [afterTerm.eq_def]
  split
  · exact staysPossible_ok.mpr trivial
  · exact staysPossible_ok.mpr trivial
  · exact staysPossible_error _

/-- At the beginning of a term the reader comes to possible states. -/
theorem staysPossible_beginTerm (index : Nat) (symbol : Symbol) :
    StaysPossible (beginTerm index symbol) := by
  rw [beginTerm.eq_def]
  split
  · exact staysPossible_ok.mpr trivial
  · split
    · exact staysPossible_ok.mpr trivial
    · exact staysPossible_error _
  · exact staysPossible_error _

/-- Behind a number the reader comes to possible states. -/
theorem staysPossible_afterNumber (n numberIndex index : Nat) (symbol : Symbol) :
    StaysPossible (afterNumber limits n numberIndex index symbol) := by
  rw [afterNumber.eq_def]
  split
  · split
    · exact staysPossible_error _
    split
    · exact staysPossible_error _
    · exact staysPossible_ok.mpr trivial
  · intro complete next hmove
    obtain ⟨term, -, hafter⟩ := bind_eq_ok_iff.mp hmove
    exact staysPossible_afterTerm term index symbol complete next hafter

/-- Behind the sides of a group the reader comes to possible states. -/
theorem staysPossible_withSides {count : UInt32} {count_pos : 0 < count} {index sides : Nat}
    (h : 2 ≤ sides) :
    StaysPossible (readSides.withSides limits count count_pos index sides) := by
  rw [readSides.withSides.eq_def]
  split
  · exact staysPossible_error _
  · next hmax =>
      have hsides : (UInt32.ofNat sides).toNat = sides :=
        toNat_ofNat_of_le (Nat.not_lt.mp hmax)
      exact staysPossible_ok.mpr ⟨hsides.symm ▸ h, count.toNat_lt⟩

/-- Behind the `d` of a group the reader comes to possible states. -/
theorem staysPossible_readSides (count : UInt32) (count_pos : 0 < count) (index : Nat)
    (symbol : Symbol) : StaysPossible (readSides limits count count_pos index symbol) := by
  rw [readSides.eq_def]
  split
  · exact staysPossible_withSides (by omega)
  · split
    · exact staysPossible_error _
    split
    · exact staysPossible_error _
    · next htwo => exact staysPossible_withSides (Nat.not_lt.mp htwo)
  · exact staysPossible_error _
  · exact staysPossible_error _

/-- Behind a group the reader comes to possible states. -/
theorem staysPossible_afterGroup {g : DiceGroup} {kept : Nat} (h : (group g kept).Possible)
    (index : Nat) (symbol : Symbol) : StaysPossible (afterGroup g kept index symbol) := by
  rw [afterGroup.eq_def]
  split
  · exact staysPossible_ok.mpr h
  · exact staysPossible_afterTerm _ _ _

/-- Behind a marker the reader comes to possible states. -/
theorem staysPossible_afterMarker {g : DiceGroup} {kept : Nat} (h : (group g kept).Possible)
    (marker : Marker) (markerIndex index : Nat) (symbol : Symbol) :
    StaysPossible (afterMarker g kept marker markerIndex index symbol) := by
  rw [afterMarker.eq_def]
  split
  · split
    · exact staysPossible_error _
    split
    · next qualifier _ => exact staysPossible_ok.mpr ⟨h.1, keptAfter_lt_size h.2 qualifier⟩
    · exact staysPossible_error _
  · split
    · next qualifier _ => exact staysPossible_afterGroup (g := g.qualify qualifier) h index symbol
    · exact staysPossible_error _

/-- From a possible state every step leads to a possible state. -/
theorem staysPossible_step {reader : Reader} (h : reader.Possible) (index : Nat)
    (symbol : Symbol) : StaysPossible (reader.step limits index symbol) := by
  cases reader with
  | start | term => exact staysPossible_beginTerm index symbol
  | number n numberIndex => exact staysPossible_afterNumber n numberIndex index symbol
  | sides count count_pos => exact staysPossible_readSides count count_pos index symbol
  | group g kept => exact staysPossible_afterGroup h index symbol
  | marked g kept marker markerIndex =>
      exact staysPossible_afterMarker h marker markerIndex index symbol

end Reader

end Dicebox
