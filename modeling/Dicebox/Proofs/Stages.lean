import Dicebox.Qualify
import Dicebox.Proofs.WellFormed

/-!
# Qualifiers in two stages

The qualifiers of a group are written in one list, but they act in two stages: first those that
add dice, the *generators*, and then the *selections*. Whether a qualifier makes sense is tracked
in the written order all the same. The two orders do not get in each other's way, because a
generator neither asks how many dice are kept nor changes the number that is tracked.

## Main definitions

* `generators`, `selections` — the qualifiers of the two stages.

## Main results

* `qualifierFlaw?_eq_none_iff_stages` — qualifiers have no flaw if those of each stage have none.
* `keptThrough_selections` — the number that is tracked only depends on the selections.
-/

namespace Dicebox

/-- The qualifiers that add dice, in written order. -/
def generators (qualifiers : List Qualifier) : List Qualifier :=
  qualifiers.filter (·.phase = .generate)

/-- The qualifiers that select dice, in written order. -/
def selections (qualifiers : List Qualifier) : List Qualifier :=
  qualifiers.filter (·.phase = .filter)

variable {qualifier : Qualifier} {qualifiers : List Qualifier}

@[simp] theorem mem_generators :
    qualifier ∈ generators qualifiers ↔ qualifier ∈ qualifiers ∧ qualifier.phase = .generate := by
  simp [generators]

@[simp] theorem mem_selections :
    qualifier ∈ selections qualifiers ↔ qualifier ∈ qualifiers ∧ qualifier.phase = .filter := by
  simp [selections]

/-- A generator goes to the first stage. -/
theorem stages_cons_of_generate (h : qualifier.phase = .generate) (qualifiers : List Qualifier) :
    generators (qualifier :: qualifiers) = qualifier :: generators qualifiers ∧
      selections (qualifier :: qualifiers) = selections qualifiers := by
  simp [generators, selections, h]

/-- A selection goes to the second stage. -/
theorem stages_cons_of_filter (h : qualifier.phase = .filter) (qualifiers : List Qualifier) :
    generators (qualifier :: qualifiers) = generators qualifiers ∧
      selections (qualifier :: qualifiers) = qualifier :: selections qualifiers := by
  simp [generators, selections, h]

/-- A generator leaves the number of kept dice that is tracked. -/
theorem keptAfter_of_generate (h : qualifier.phase = .generate) (kept : Nat) :
    qualifier.keptAfter kept = kept := by
  cases qualifier with
  | select => cases h
  | reroll | explode => rfl

/-- A generator does not ask how many dice are kept. -/
theorem accepts_iff_of_generate (h : qualifier.phase = .generate) (sides : UInt32)
    (kept kept' : Nat) : qualifier.Accepts sides kept ↔ qualifier.Accepts sides kept' := by
  cases qualifier with
  | select => cases h
  | reroll => rfl
  | explode threshold => cases threshold <;> rfl

/-- Qualifiers have no flaw exactly when every generator accepts its dice and the selections
alone have no flaw. -/
theorem qualifierFlaw?_eq_none_iff_stages {group : DiceGroup} {kept : Nat} :
    group.qualifierFlaw? kept qualifiers = none ↔
      (∀ qualifier ∈ generators qualifiers, ∀ kept, qualifier.Accepts group.sides kept) ∧
        group.qualifierFlaw? kept (selections qualifiers) = none := by
  induction qualifiers generalizing kept with
  | nil => exact iff_of_true rfl ⟨nofun, rfl⟩
  | cons first qualifiers ih =>
      rw [qualifierFlaw?_cons_eq_none_iff, ih]
      cases hphase : first.phase with
      | generate =>
          obtain ⟨hgenerators, hselections⟩ := stages_cons_of_generate hphase qualifiers
          rw [hgenerators, hselections, keptAfter_of_generate hphase, List.forall_mem_cons,
            and_assoc]
          refine and_congr_left fun _ => ⟨fun h kept' => ?_, fun h => h kept⟩
          exact (accepts_iff_of_generate hphase _ kept kept').mp h
      | filter =>
          obtain ⟨hgenerators, hselections⟩ := stages_cons_of_filter hphase qualifiers
          rw [hgenerators, hselections, qualifierFlaw?_cons_eq_none_iff]
          exact and_left_comm

/-- A group has no flaw exactly when its dice have two sides and its qualifiers have no flaw. -/
theorem flaw?_eq_none_iff_qualifierFlaw? {group : DiceGroup} :
    group.flaw? = none ↔
      2 ≤ group.sides ∧ group.qualifierFlaw? group.count.toNat group.qualifiers = none := by
  rw [DiceGroup.flaw?_eq_none_iff, qualifierFlaw?_eq_none_iff]

/-- The number of kept dice behind qualifiers is the one behind the selections among them. -/
theorem keptThrough_selections (kept : Nat) (qualifiers : List Qualifier) :
    keptThrough kept (selections qualifiers) = keptThrough kept qualifiers := by
  induction qualifiers generalizing kept with
  | nil => rfl
  | cons first qualifiers ih =>
      cases hphase : first.phase with
      | generate =>
          rw [(stages_cons_of_generate hphase qualifiers).2, ih, keptThrough, keptThrough,
            List.foldl_cons, keptAfter_of_generate hphase]
      | filter =>
          rw [(stages_cons_of_filter hphase qualifiers).2]
          exact ih (first.keptAfter kept)

end Dicebox
