import Dicebox.Proofs.OwnDice
import Dicebox.Proofs.Replaying

/-!
# Every die shows a face

A roll that comes to an end has only taken answers that are faces of the dice it asked for, and
a group only asks for dice of its own sides. `Rolling.Always` says such things of all paths of a
computation, and carries them through its steps; a path that fails is left out of account.

## Main definitions

* `Rolling.Always` — what holds of all draws of a computation, and of the value it comes to.
* `Draw.Shows` — a draw shows a face of a die.

## Main results

* `Rolling.Always.bind` — two steps one after the other.
* `Rolling.OnlyRolls.always` — whoever only rolls dice sees faces of them.
* `DiceGroup.roll_always`, `DiceGroup.shows_of_yields` — the dice of a group are its own, and
  show faces.
-/

namespace Dicebox

variable {α β : Type}

namespace Rolling

/-! ### All paths -/

/-- On every path of a computation all draws are good, and the value at the end is as wanted. -/
def Always (good : Draw → Prop) (post : α → Prop) (rolling : Rolling α) : Prop :=
  ∀ draws value, rolling.Yields draws value → (∀ draw ∈ draws, good draw) ∧ post value

variable {good : Draw → Prop} {post : α → Prop}

/-- A computation that is done has no draws. -/
theorem always_done {value : α} (h : post value) : (done value).Always good post := by
  intro draws result hyields
  obtain ⟨rfl, rfl⟩ := yields_done_iff.mp hyields
  exact ⟨nofun, h⟩

/-- Two steps always do what the second does, for what the first always comes to. -/
theorem Always.bind {goal : β → Prop} {rolling : Rolling α} {f : α → Rolling β}
    (h : rolling.Always good post) (hf : ∀ value, post value → (f value).Always good goal) :
    (rolling >>= f).Always good goal := by
  intro draws result hyields
  obtain ⟨value, first, second, rfl, hfirst, hsecond⟩ := yields_bind_iff.mp hyields
  obtain ⟨hgood, hpost⟩ := h first value hfirst
  obtain ⟨hgood', hgoal⟩ := hf value hpost second result hsecond
  exact ⟨List.forall_mem_append.mpr ⟨hgood, hgood'⟩, hgoal⟩

end Rolling

/-! ### Dice -/

/-- A draw shows a face of a die of these sides. -/
def Draw.Shows (sides : UInt32) (draw : Draw) : Prop :=
  draw.sides = sides ∧ 1 ≤ draw.value ∧ draw.value ≤ sides

variable {sides : UInt32}

/-- A die that is rolled shows a face. -/
theorem rollDie_always : (rollDie sides).Always (Draw.Shows sides) fun _ => True := by
  intro draws die hyields
  obtain ⟨value, more, rfl, hnext⟩ := Rolling.yields_ask_iff.mp hyields
  split at hnext
  · next hface =>
      obtain ⟨rfl, rfl⟩ := Rolling.yields_done_iff.mp hnext
      exact ⟨List.forall_mem_singleton.mpr ⟨rfl, hface⟩, trivial⟩
  · exact absurd hnext Rolling.not_yields_failed

/-- A computation that only rolls dice of some sides always sees faces of them. -/
theorem Rolling.OnlyRolls.always {post : α → Prop} {rolling : Rolling α}
    (h : rolling.OnlyRolls sides post) : rolling.Always (Draw.Shows sides) post := by
  induction h with
  | done hvalue => exact Rolling.always_done hvalue
  | die _ ih => exact rollDie_always.bind fun die _ => ih die

/-! ### Groups -/

namespace DiceGroup

/-- A group only rolls dice of its own sides, and all of them show faces. -/
theorem roll_always (group : DiceGroup) :
    group.roll.Always (Draw.Shows group.sides) fun pool => pool.sides = group.sides :=
  group.roll_onlyRolls.always

/-- The dice in the pool of a group have the sides of the group, and show faces. -/
theorem shows_of_yields {group : DiceGroup} {draws : List Draw} {pool : Pool}
    (h : group.roll.Yields draws pool) {die : Die} (hdie : die ∈ pool.dice) :
    die.sides = group.sides ∧ 1 ≤ die.value ∧ die.value ≤ group.sides := by
  refine (group.roll_always draws pool h).1 die.draw ?_
  rw [← map_draw_roll h]
  exact List.mem_map_of_mem hdie

end DiceGroup

end Dicebox
