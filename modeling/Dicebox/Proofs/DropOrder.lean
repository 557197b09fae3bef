import Mathlib.Algebra.Ring.Nat
import Dicebox.Proofs.Windows

/-!
# Drops in any order

The lowest and the highest dice can be dropped in any order and in any portions: what is left is the
same, die by die. For the values alone this is plain, since the drops at either end only cut the
sorted values there. But among dice of one value both drops begin with the earliest one, so when
the two cuts fall into the same value, they compete for the same dice.

What both kinds of drops have in common settles it. They *thin* the pool: whenever a die is left,
the later dice of its value are left as well. So how many dice of a value are left says which ones
they are, and two pools that are thinned from the same one are equal if they leave the same values.

## Main definitions

* `Pool.Thins` — what is left if the earliest dice of every value go first.
* `Selection.total` — how many dice the selections of one kind name altogether.

## Main results

* `Pool.Thins.unique` — the values that are left determine the dice.
* `Pool.dropLowest_dropLowest`, `Pool.dropHighest_dropHighest` — portions add up.
* `Pool.dropHighest_dropLowest` — the order of the two ends makes no difference.
* `Pool.qualify_drops` — drops one after the other.
-/

namespace Dicebox

/-- A die is what it records, and whether it is kept. -/
theorem Die.eq_of_draw_eq {die die' : Die} (hdraw : die.draw = die'.draw)
    (hkept : die.kept = die'.kept) : die = die' := by
  obtain ⟨hsides, hvalue⟩ := Draw.mk.inj hdraw
  cases die
  cases die'
  simp only [mk.injEq]
  exact ⟨hsides, hvalue, hkept⟩

namespace Pool

variable {ranking : UInt32 × Nat → UInt32 × Nat → Bool} {goesFirst : UInt32 → UInt32 → Prop}
  {pool after other : Pool}

/-! ### Thinning -/

/-- Of the dice of `pool`, `after` leaves some, and with each die all later ones of its value. -/
structure Thins (pool after : Pool) : Prop where
  sides : after.sides = pool.sides
  draws : after.dice.map Die.draw = pool.dice.map Die.draw
  subset : after.keptIndices ⊆ pool.keptIndices
  later : ∀ i ∈ after.keptIndices, ∀ j ∈ pool.keptIndices,
    pool.valueAt i = pool.valueAt j → i ≤ j → j ∈ after.keptIndices

theorem Thins.refl (pool : Pool) : Thins pool pool where
  sides := rfl
  draws := rfl
  subset := Finset.Subset.refl _
  later _ _ _ hj _ _ := hj

theorem Thins.trans {between : Pool} (h : Thins pool between) (h' : Thins between after) :
    Thins pool after where
  sides := h'.sides.trans h.sides
  draws := h'.draws.trans h.draws
  subset := h'.subset.trans h.subset
  later i hi j hj hvalue hle := by
    have hbetween : j ∈ between.keptIndices := h.later i (h'.subset hi) j hj hvalue hle
    refine h'.later i hi j hbetween ?_ hle
    rw [valueAt_congr h.draws, hvalue]

/-- Among dice of one value, at least as many go before a later die. -/
theorem ahead_le_ahead [DecidableRel goesFirst] {i j : Nat}
    (hvalue : pool.valueAt i = pool.valueAt j) (hle : i ≤ j) :
    pool.ahead goesFirst i ≤ pool.ahead goesFirst j := by
  refine Finset.card_le_card fun k hk => ?_
  obtain ⟨hkept, hbefore⟩ := Finset.mem_filter.mp hk
  rw [hvalue] at hbefore
  exact Finset.mem_filter.mpr ⟨hkept, hbefore.imp id fun hlt => ⟨hlt.1, hlt.2.trans_le hle⟩⟩

/-- Dropping dice by rank thins a pool, because dice of one value rank by their places. -/
theorem thins_dropFirst [DecidableRel goesFirst] (h : Ranks ranking goesFirst) (n : Nat)
    (pool : Pool) : Thins pool (pool.dropFirst ranking n) where
  sides := rfl
  draws := map_draw_dropAt _ pool.dice
  subset _ hi := ((mem_keptIndices_dropFirst h).mp hi).1
  later i hi j hj hvalue hle := by
    obtain ⟨-, hn⟩ := (mem_keptIndices_dropFirst h).mp hi
    exact (mem_keptIndices_dropFirst h).mpr ⟨hj, hn.trans (ahead_le_ahead hvalue hle)⟩

/-- The kept dice of a value are as many as the kept values that equal it. -/
theorem card_filter_valueAt (value : UInt32) (pool : Pool) :
    Finset.card {i ∈ pool.keptIndices | pool.valueAt i = value} = pool.keptValues.count value := by
  have hcount := pool.countP_keptPlaces fun entry => entry.1 == value
  simp only [beq_iff_eq] at hcount
  rw [← hcount, ← map_fst_keptPlaces, List.count_eq_countP, List.countP_map]
  rfl

/-- A thinned pool keeps the dice of another one that leaves the same values. -/
theorem Thins.keptIndices_subset (h : Thins pool after) (h' : Thins pool other)
    (hvalues : after.keptValues.Perm other.keptValues) :
    after.keptIndices ⊆ other.keptIndices := by
  intro i hi
  by_contra hnot
  -- The dice of this value that the other pool keeps come later, so they are left here as well.
  have hsubset : {j ∈ other.keptIndices | other.valueAt j = pool.valueAt i} ⊆
      {j ∈ after.keptIndices | after.valueAt j = pool.valueAt i} := by
    rw [valueAt_congr h.draws, valueAt_congr h'.draws]
    intro j hj
    obtain ⟨hj, hvalue⟩ := Finset.mem_filter.mp hj
    refine Finset.mem_filter.mpr ⟨?_, hvalue⟩
    rcases Nat.le_total i j with hle | hle
    · exact h.later i hi j (h'.subset hj) hvalue.symm hle
    · exact absurd (h'.later j hj i (h.subset hi) hvalue hle) hnot
  have hless : {j ∈ other.keptIndices | other.valueAt j = pool.valueAt i} ⊂
      {j ∈ after.keptIndices | after.valueAt j = pool.valueAt i} := by
    refine (Finset.ssubset_iff_of_subset hsubset).mpr ⟨i, ?_, ?_⟩
    · exact Finset.mem_filter.mpr ⟨hi, by rw [valueAt_congr h.draws]⟩
    · exact fun hmem => hnot (Finset.mem_filter.mp hmem).1
  have hcard := Finset.card_lt_card hless
  rw [card_filter_valueAt, card_filter_valueAt, hvalues.count_eq] at hcard
  exact Nat.lt_irrefl _ hcard

/-- Pools are equal if they record the same draws and keep the dice at the same places. -/
theorem eq_of_keptIndices_eq (hsides : after.sides = other.sides)
    (hdraws : after.dice.map Die.draw = other.dice.map Die.draw)
    (hkept : after.keptIndices = other.keptIndices) : after = other := by
  have hdice : after.dice = other.dice := by
    refine List.ext_getElem? fun i => ?_
    have hdraw : after.dice[i]?.map Die.draw = other.dice[i]?.map Die.draw := by
      rw [← List.getElem?_map, hdraws, List.getElem?_map]
    have hplace : i ∈ after.keptIndices ↔ i ∈ other.keptIndices := by rw [hkept]
    simp only [mem_keptIndices] at hplace
    cases hdie : after.dice[i]? with
    | none =>
        rw [hdie] at hdraw
        exact (Option.map_eq_none_iff.mp hdraw.symm).symm
    | some die =>
        rw [hdie] at hdraw
        obtain ⟨die', hdie', hsame⟩ := Option.map_eq_some_iff.mp hdraw.symm
        simp only [hdie, hdie', Option.some.injEq, exists_eq_left'] at hplace
        rw [hdie', Die.eq_of_draw_eq hsame.symm (Bool.eq_iff_iff.mpr hplace)]
  cases after
  cases other
  simp only [mk.injEq]
  exact ⟨hsides, hdice⟩

/-- The values that are left determine which dice are left. -/
theorem Thins.unique (h : Thins pool after) (h' : Thins pool other)
    (hvalues : after.ascending = other.ascending) : after = other := by
  have hperm : after.keptValues.Perm other.keptValues := ascending_eq_iff.mp hvalues
  refine eq_of_keptIndices_eq (h.sides.trans h'.sides.symm) (h.draws.trans h'.draws.symm) ?_
  exact Finset.Subset.antisymm (h.keptIndices_subset h' hperm)
    (h'.keptIndices_subset h hperm.symm)

/-! ### Drops at both ends -/

theorem thins_dropLowest (n : Nat) (pool : Pool) : Thins pool (pool.dropLowest n) :=
  thins_dropFirst ranks_lowestFirst n pool

theorem thins_dropHighest (n : Nat) (pool : Pool) : Thins pool (pool.dropHighest n) :=
  thins_dropFirst ranks_highestFirst n pool

/-- Dropping none of the lowest dice leaves all. -/
theorem dropLowest_zero (pool : Pool) : pool.dropLowest 0 = pool := by
  refine (thins_dropLowest 0 pool).unique (.refl pool) ?_
  rw [ascending_dropLowest, List.drop_zero]

/-- Dropping none of the highest dice leaves all. -/
theorem dropHighest_zero (pool : Pool) : pool.dropHighest 0 = pool := by
  refine (thins_dropHighest 0 pool).unique (.refl pool) ?_
  rw [ascending_dropHighest, Nat.sub_zero, ← length_ascending, List.take_length]

/-- The lowest dice may be dropped in portions. -/
theorem dropLowest_dropLowest (m n : Nat) (pool : Pool) :
    (pool.dropLowest m).dropLowest n = pool.dropLowest (m + n) := by
  refine ((thins_dropLowest m pool).trans (thins_dropLowest n _)).unique
    (thins_dropLowest (m + n) pool) ?_
  simp only [ascending_dropLowest, List.drop_drop]

/-- The highest dice may be dropped in portions. -/
theorem dropHighest_dropHighest (m n : Nat) (pool : Pool) :
    (pool.dropHighest m).dropHighest n = pool.dropHighest (m + n) := by
  refine ((thins_dropHighest m pool).trans (thins_dropHighest n _)).unique
    (thins_dropHighest (m + n) pool) ?_
  rw [ascending_dropHighest, ascending_dropHighest, ascending_dropHighest, keptCount_dropHighest,
    List.take_take, Nat.min_eq_left (Nat.sub_le _ _), Nat.sub_sub]

/-- The lowest and the highest dice may be dropped in either order. -/
theorem dropHighest_dropLowest (m n : Nat) (pool : Pool) :
    (pool.dropLowest m).dropHighest n = (pool.dropHighest n).dropLowest m := by
  refine ((thins_dropLowest m pool).trans (thins_dropHighest n _)).unique
    ((thins_dropHighest n pool).trans (thins_dropLowest m _)) ?_
  rw [ascending_dropHighest, ascending_dropLowest, ascending_dropLowest, ascending_dropHighest,
    keptCount_dropLowest, List.drop_take, Nat.sub_right_comm]

end Pool

/-! ### Drops one after the other -/

/-- The number of dice that the selections of one kind name altogether. -/
def Selection.total (which : Selection) (steps : List (Selection × UInt32)) : Nat :=
  ((steps.filter fun step => step.1 = which).map fun step => step.2.toNat).sum

namespace Selection

/-- A selection of the kind adds its count. -/
theorem total_cons_self (which : Selection) (n : UInt32) (steps : List (Selection × UInt32)) :
    which.total ((which, n) :: steps) = n.toNat + which.total steps := by
  simp [total]

/-- A selection of another kind adds nothing. -/
theorem total_cons_of_ne {which first : Selection} (h : first ≠ which) (n : UInt32)
    (steps : List (Selection × UInt32)) :
    which.total ((first, n) :: steps) = which.total steps := by
  simp [total, h]

end Selection

namespace Pool

/-- Drops one after the other are one drop at either end. -/
theorem select_drops {steps : List (Selection × UInt32)}
    (hdrops : ∀ step ∈ steps, step.1 = .dropLowest ∨ step.1 = .dropHighest) (pool : Pool) :
    pool.select steps = (pool.dropLowest (Selection.dropLowest.total steps)).dropHighest
      (Selection.dropHighest.total steps) := by
  induction steps generalizing pool with
  | nil => exact ((pool.dropLowest 0).dropHighest_zero.trans pool.dropLowest_zero).symm
  | cons step more ih =>
      obtain ⟨hfirst, hmore⟩ := List.forall_mem_cons.mp hdrops
      obtain ⟨which, n⟩ := step
      rw [select, List.foldl_cons, ← select, ih hmore]
      rcases hfirst with rfl | rfl
      · rw [Selection.apply, dropLowest_dropLowest, Selection.total_cons_self,
          Selection.total_cons_of_ne (by decide)]
      · -- The highest dice that are dropped first wait until the lowest ones are dropped.
        rw [Selection.apply, ← dropHighest_dropLowest, dropHighest_dropHighest,
          Selection.total_cons_self, Selection.total_cons_of_ne (by decide)]

/-- **The order of drops.** However often and in whatever order the lowest and the highest dice are
dropped, the same dice are left as when all lowest ones are dropped at once and then all highest
ones, and also the other way round. -/
theorem qualify_drops {steps : List (Selection × UInt32)}
    (hdrops : ∀ step ∈ steps, step.1 = .dropLowest ∨ step.1 = .dropHighest) (pool : Pool) :
    pool.qualify (selects steps) =
      .done ((pool.dropLowest (Selection.dropLowest.total steps)).dropHighest
        (Selection.dropHighest.total steps)) ∧
    pool.qualify (selects steps) =
      .done ((pool.dropHighest (Selection.dropHighest.total steps)).dropLowest
        (Selection.dropLowest.total steps)) := by
  rw [qualify_selects, select_drops hdrops, dropHighest_dropLowest]
  exact ⟨rfl, rfl⟩

/-- Five equal dice, of which one does not count. The drops at either end compete for the earliest
ones, and the three that they take are the same in any order. -/
theorem qualify_drops_of_equal :
    ∃ pool after : Pool,
      pool.dice = [⟨6, 3, true⟩, ⟨6, 3, false⟩, ⟨6, 3, true⟩, ⟨6, 3, true⟩, ⟨6, 3, true⟩] ∧
      pool.qualify [.select .dropHighest 1, .select .dropLowest 1, .select .dropHighest 1] =
        .done after ∧
      after = (pool.dropLowest 1).dropHighest 2 ∧ after = (pool.dropHighest 2).dropLowest 1 ∧
      after.dice.map Die.kept = [false, false, false, false, true] := by
  let pool : Pool :=
    ⟨6, [⟨6, 3, true⟩, ⟨6, 3, false⟩, ⟨6, 3, true⟩, ⟨6, 3, true⟩, ⟨6, 3, true⟩]⟩
  let steps : List (Selection × UInt32) :=
    [(.dropHighest, 1), (.dropLowest, 1), (.dropHighest, 1)]
  have hdrops : ∀ step ∈ steps, step.1 = .dropLowest ∨ step.1 = .dropHighest := by decide
  obtain ⟨hlowest, hhighest⟩ := qualify_drops hdrops pool
  rw [hlowest] at hhighest
  exact ⟨pool, _, rfl, hlowest, rfl, Rolling.done.inj hhighest, by cbv⟩

end Pool

end Dicebox
