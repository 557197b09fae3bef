import Dicebox.Proofs.Ranking

/-!
# Which values are kept

Whichever selections are made, the kept values are those between two places of the sorted values.
This *window* begins as the whole list, and every selection narrows it: dropping the lowest dice
moves its lower end up, dropping the highest ones moves its upper end down, and keeping dice drops
the others. The ends only depend on the counts, so the values that are kept do not depend on the
order in which the dice were rolled, although it does decide which of two equal dice is kept.

## Main definitions

* `Pool.ascending` — the kept values, sorted.
* `Window`, `Selection.narrow` — places of a list, and what a selection leaves of them.
* `selects`, `Pool.select` — selections one after the other, as qualifiers and as what they leave.

## Main results

* `Pool.ascending_dropLowest`, `Pool.ascending_dropHighest` — drops cut the sorted values.
* `Pool.ascending_select` — the kept values stay a window of the sorted ones.
* `Pool.run_selects` — what selections do, whatever the source.
-/

namespace Dicebox

variable {pool after : Pool} {steps : List (Selection × UInt32)}

namespace Pool

/-! ### Sorted values -/

/-- The kept values in ascending order. -/
def ascending (pool : Pool) : List UInt32 :=
  pool.keptValues.mergeSort fun a b => decide (a ≤ b)

/-- The sorted values are the kept ones. -/
theorem ascending_perm (pool : Pool) : pool.ascending.Perm pool.keptValues :=
  List.mergeSort_perm _ _

/-- There are as many sorted values as kept dice. -/
theorem length_ascending (pool : Pool) : pool.ascending.length = pool.keptCount := by
  rw [pool.ascending_perm.length_eq, keptValues, List.length_map, keptCount]

/-- The sorted values ascend. -/
theorem pairwise_ascending (pool : Pool) : pool.ascending.Pairwise (· ≤ ·) := by
  refine (List.pairwise_mergeSort (fun a b c => ?_) (fun a b => ?_) pool.keptValues).imp
    fun hab => of_decide_eq_true hab
  · simpa using UInt32.le_trans
  · simpa using UInt32.le_total a b

/-- There is only one way to sort the kept values. -/
theorem eq_ascending_of_perm {values : List UInt32} (hsorted : values.Pairwise (· ≤ ·))
    (hperm : values.Perm pool.keptValues) : pool.ascending = values :=
  (pool.ascending_perm.trans hperm.symm).eq_of_pairwise
    (fun _ _ _ _ => UInt32.le_antisymm) pool.pairwise_ascending hsorted

/-- Pools sort their kept values into the same list if these are the same in any order. -/
theorem ascending_eq_iff :
    after.ascending = pool.ascending ↔ after.keptValues.Perm pool.keptValues := by
  constructor
  · intro heq
    have hperm := after.ascending_perm
    rw [heq] at hperm
    exact hperm.symm.trans pool.ascending_perm
  · intro hperm
    exact eq_ascending_of_perm pool.pairwise_ascending (pool.ascending_perm.trans hperm.symm)

/-- The values of a ranking are the kept ones. -/
theorem map_fst_mergeSort_perm (ranking : UInt32 × Nat → UInt32 × Nat → Bool) (pool : Pool) :
    (((keptPlaces pool.dice).mergeSort ranking).map Prod.fst).Perm pool.keptValues := by
  rw [← map_fst_keptPlaces]
  exact (List.mergeSort_perm _ ranking).map Prod.fst

/-- From the lowest up, the values of the ranking are the sorted ones. -/
theorem map_fst_mergeSort_lowestFirst (pool : Pool) :
    ((keptPlaces pool.dice).mergeSort lowestFirst).map Prod.fst = pool.ascending := by
  refine (eq_ascending_of_perm ?_ (map_fst_mergeSort_perm lowestFirst pool)).symm
  refine List.pairwise_map.mpr ((ranks_lowestFirst.pairwise_mergeSort pool.dice).imp ?_)
  intro a b hab
  rcases (ranks_lowestFirst.iff a b).mp hab.1 with hlt | ⟨heq, -⟩
  · exact UInt32.le_of_lt hlt
  · exact UInt32.le_of_eq heq

/-- From the highest down, the values of the ranking are the sorted ones from their end. -/
theorem map_fst_mergeSort_highestFirst (pool : Pool) :
    ((keptPlaces pool.dice).mergeSort highestFirst).map Prod.fst = pool.ascending.reverse := by
  set descending := ((keptPlaces pool.dice).mergeSort highestFirst).map Prod.fst with hdescending
  have hperm : descending.reverse.Perm pool.keptValues :=
    descending.reverse_perm.trans (map_fst_mergeSort_perm highestFirst pool)
  rw [eq_ascending_of_perm ?_ hperm, List.reverse_reverse]
  refine List.pairwise_reverse.mpr (List.pairwise_map.mpr ?_)
  refine (ranks_highestFirst.pairwise_mergeSort pool.dice).imp ?_
  intro a b hab
  rcases (ranks_highestFirst.iff a b).mp hab.1 with hlt | ⟨heq, -⟩
  · exact UInt32.le_of_lt hlt
  · exact UInt32.le_of_eq heq.symm

/-- The values that are left when dice are dropped by rank. -/
theorem keptValues_dropFirst_perm (ranking : UInt32 × Nat → UInt32 × Nat → Bool) (n : Nat)
    (pool : Pool) : (pool.dropFirst ranking n).keptValues.Perm
      ((((keptPlaces pool.dice).mergeSort ranking).map Prod.fst).drop n) := by
  rw [← map_fst_keptPlaces, ← List.map_drop]
  exact (keptPlaces_dropFirst_perm ranking n pool).map Prod.fst

/-- Dropping the lowest dice takes the first of the sorted values away. -/
theorem ascending_dropLowest (n : Nat) (pool : Pool) :
    (pool.dropLowest n).ascending = pool.ascending.drop n := by
  have hleft := keptValues_dropFirst_perm lowestFirst n pool
  rw [map_fst_mergeSort_lowestFirst] at hleft
  exact eq_ascending_of_perm pool.pairwise_ascending.drop hleft.symm

/-- Dropping the highest dice takes the last of the sorted values away. -/
theorem ascending_dropHighest (n : Nat) (pool : Pool) :
    (pool.dropHighest n).ascending = pool.ascending.take (pool.keptCount - n) := by
  have hleft := keptValues_dropFirst_perm highestFirst n pool
  rw [map_fst_mergeSort_highestFirst, List.drop_reverse, length_ascending] at hleft
  exact eq_ascending_of_perm pool.pairwise_ascending.take
    ((List.reverse_perm _).symm.trans hleft.symm)

/-- The kept sum does not depend on the order of the kept values. -/
theorem keptSum_congr (h : after.keptValues.Perm pool.keptValues) :
    after.keptSum = pool.keptSum := by
  have hcomm : RightCommutative fun (sum : Amount) (value : UInt32) =>
      sum + .ofNat value.toNat := ⟨fun sum a b => by rw [Int64.add_assoc,
        Int64.add_comm (.ofNat a.toNat), ← Int64.add_assoc]⟩
  exact h.foldl_eq 0

end Pool

/-! ### Windows -/

/-- The places of a list from `lo` on and below `hi`. -/
@[ext] structure Window where
  lo : Nat
  hi : Nat
  lo_le_hi : lo ≤ hi

namespace Window

/-- All places of a list of `n` entries. -/
def whole (n : Nat) : Window :=
  ⟨0, n, n.zero_le⟩

/-- The entries of a list at the places of a window. -/
def of {α : Type} (window : Window) (values : List α) : List α :=
  values.extract window.lo window.hi

/-- There are as many entries as places, if the list has them. -/
theorem length_of {α : Type} {window : Window} {values : List α}
    (h : window.hi ≤ values.length) : (window.of values).length = window.hi - window.lo := by
  rw [of, List.length_take, List.length_drop]
  omega

end Window

namespace Selection

/-- What a selection of `n` dice leaves of a window. -/
def narrow (n : Nat) (window : Window) : Selection → Window
  | dropLowest => ⟨min (window.lo + n) window.hi, window.hi, Nat.min_le_right _ _⟩
  | dropHighest => ⟨window.lo, max (window.hi - n) window.lo, Nat.le_max_right _ _⟩
  | keepHighest =>
      ⟨max window.lo (window.hi - n), window.hi, Nat.max_le.mpr ⟨window.lo_le_hi, Nat.sub_le _ _⟩⟩
  | keepLowest =>
      ⟨window.lo, min window.hi (window.lo + n),
        Nat.le_min.mpr ⟨window.lo_le_hi, Nat.le_add_right _ _⟩⟩

variable {window : Window} {values : List UInt32}

/-- A selection does not move the upper end of a window up. -/
theorem hi_narrow_le (which : Selection) (n : Nat) (window : Window) :
    (which.narrow n window).hi ≤ window.hi := by
  cases which with
  | keepHighest | dropLowest => exact Nat.le_refl _
  | keepLowest => exact Nat.min_le_left _ _
  | dropHighest => exact Nat.max_le.mpr ⟨Nat.sub_le _ _, window.lo_le_hi⟩

/-- Keeping the highest of a window is dropping the others at its lower end. -/
theorem narrow_keepHighest (n : Nat) (window : Window) :
    keepHighest.narrow n window = dropLowest.narrow (window.hi - window.lo - n) window := by
  have hle := window.lo_le_hi
  refine Window.ext ?_ rfl
  simp only [narrow]
  omega

/-- Keeping the lowest of a window is dropping the others at its upper end. -/
theorem narrow_keepLowest (n : Nat) (window : Window) :
    keepLowest.narrow n window = dropHighest.narrow (window.hi - window.lo - n) window := by
  have hle := window.lo_le_hi
  refine Window.ext rfl ?_
  simp only [narrow]
  omega

/-- The sorted values behind the lowest `n` of a window. -/
theorem drop_of (n : Nat) (window : Window) (values : List UInt32) :
    (window.of values).drop n = (dropLowest.narrow n window).of values := by
  simp only [Window.of, List.extract, narrow, List.drop_take, List.drop_drop]
  rcases Nat.le_total (window.lo + n) window.hi with hle | hle
  · rw [Nat.min_eq_left hle, Nat.sub_add_eq]
  · rw [Nat.min_eq_right hle, Nat.sub_self, ← Nat.sub_add_eq, Nat.sub_eq_zero_of_le hle,
      List.take_zero, List.take_zero]

/-- The sorted values before the highest `n` of a window. -/
theorem take_of (n : Nat) (window : Window) (values : List UInt32) :
    (window.of values).take (window.hi - window.lo - n) =
      (dropHighest.narrow n window).of values := by
  have hplaces : min (window.hi - window.lo - n) (window.hi - window.lo) =
      max (window.hi - n) window.lo - window.lo := by omega
  simp only [Window.of, narrow, List.take_take, hplaces]

/-- If the kept values are a window of some values, the selection narrows it. -/
theorem ascending_apply (hbound : window.hi ≤ values.length)
    (h : pool.ascending = window.of values) (which : Selection) (n : Nat) :
    (which.apply n pool).ascending = (which.narrow n window).of values := by
  have hcount : pool.keptCount = window.hi - window.lo := by
    rw [← pool.length_ascending, h, Window.length_of hbound]
  cases which with
  | dropLowest => rw [apply, Pool.ascending_dropLowest, h, drop_of]
  | dropHighest => rw [apply, Pool.ascending_dropHighest, h, hcount, take_of]
  | keepHighest => rw [apply, Pool.ascending_dropLowest, h, hcount, drop_of, narrow_keepHighest]
  | keepLowest =>
      rw [apply, Pool.ascending_dropHighest, h, hcount, take_of, narrow_keepLowest]

end Selection

/-- What selections leave of a window, one after the other. -/
def Window.narrow (steps : List (Selection × UInt32)) (window : Window) : Window :=
  steps.foldl (fun window step => step.1.narrow step.2.toNat window) window

/-- Selections do not move the upper end of a window up. -/
theorem Window.hi_narrow_le (steps : List (Selection × UInt32)) (window : Window) :
    (window.narrow steps).hi ≤ window.hi := by
  induction steps generalizing window with
  | nil => exact Nat.le_refl _
  | cons step more ih =>
      exact (ih (step.1.narrow step.2.toNat window)).trans (step.1.hi_narrow_le _ window)

/-! ### One selection after the other -/

/-- The qualifiers that select so many dice. -/
def selects (steps : List (Selection × UInt32)) : List Qualifier :=
  steps.map fun step => .select step.1 step.2

namespace Pool

/-- What selections leave of a pool, one after the other. -/
def select (steps : List (Selection × UInt32)) (pool : Pool) : Pool :=
  steps.foldl (fun pool step => step.1.apply step.2.toNat pool) pool

/-- Selections act without rolling any die. -/
theorem qualify_selects (steps : List (Selection × UInt32)) (pool : Pool) :
    pool.qualify (selects steps) = .done (pool.select steps) := by
  induction steps generalizing pool with
  | nil => rfl
  | cons step more ih => exact ih (step.1.apply step.2.toNat pool)

/-- Selections leave the sides of a pool. -/
theorem sides_select (steps : List (Selection × UInt32)) (pool : Pool) :
    (pool.select steps).sides = pool.sides := by
  induction steps generalizing pool with
  | nil => rfl
  | cons step more ih =>
      rw [select, List.foldl_cons, ← select, ih]
      cases step.1 with
      | keepHighest | keepLowest | dropHighest | dropLowest => rfl

/-- Selections leave the dice with what they show, in their order. -/
theorem map_draw_select (steps : List (Selection × UInt32)) (pool : Pool) :
    (pool.select steps).dice.map Die.draw = pool.dice.map Die.draw := by
  induction steps generalizing pool with
  | nil => rfl
  | cons step more ih =>
      exact (ih (step.1.apply step.2.toNat pool)).trans (step.1.map_draw_apply _ pool)

/-- If the kept values are a window of some values, selections narrow it. -/
theorem ascending_select {window : Window} {values : List UInt32}
    (hbound : window.hi ≤ values.length) (h : pool.ascending = window.of values) :
    (pool.select steps).ascending = (window.narrow steps).of values := by
  induction steps generalizing pool window with
  | nil => exact h
  | cons step more ih =>
      have hfirst := Selection.ascending_apply hbound h step.1 step.2.toNat
      exact ih ((step.1.hi_narrow_le _ window).trans hbound) hfirst

/-- Selections leave the values of a window of the sorted ones. -/
theorem ascending_select_whole (steps : List (Selection × UInt32)) (pool : Pool) :
    (pool.select steps).ascending =
      ((Window.whole pool.ascending.length).narrow steps).of pool.ascending := by
  refine ascending_select (Nat.le_refl _) ?_
  rw [Window.of, Window.whole, List.extract, List.drop_zero, Nat.sub_zero, List.take_length]

/-- **Which values are kept.** Selections of any kinds and counts, one after the other, leave the
kept values that stand in a window of the sorted ones, which is narrowed by the counts alone. They
change neither the sides of the pool nor the number of its dice, their order or what they show, and
they ask nothing of the source. Had the dice been rolled in another order, the kept sum would be
the same. -/
theorem run_selects (pool : Pool) (steps : List (Selection × UInt32)) {σ : Type} [DieSource σ]
    (source : σ) :
    ∃ (after : Pool) (window : Window),
      window = (Window.whole pool.ascending.length).narrow steps ∧
      window.hi ≤ pool.ascending.length ∧
      (pool.qualify (selects steps)).run source = (.ok after, source) ∧
      after.keptValues.Perm (pool.ascending.extract window.lo window.hi) ∧
      after.sides = pool.sides ∧
      after.dice.map Die.draw = pool.dice.map Die.draw ∧
      ∀ reordered : Pool, reordered.dice.Perm pool.dice → ∃ other : Pool,
        (reordered.qualify (selects steps)).run source = (.ok other, source) ∧
        other.keptSum = after.keptSum := by
  have hwindow := ascending_select_whole steps pool
  refine ⟨pool.select steps, _, rfl, Window.hi_narrow_le steps _, ?_, ?_, sides_select steps pool,
    map_draw_select steps pool, ?_⟩
  · rw [qualify_selects, Rolling.run]
  · rw [← Window.of, ← hwindow]
    exact (pool.select steps).ascending_perm.symm
  · intro reordered hperm
    refine ⟨reordered.select steps, by rw [qualify_selects, Rolling.run], ?_⟩
    have hvalues : reordered.keptValues.Perm pool.keptValues := (hperm.filter _).map _
    have hsame : (reordered.select steps).ascending = (pool.select steps).ascending := by
      rw [hwindow, ascending_select_whole, ascending_eq_iff.mpr hvalues]
    exact keptSum_congr (ascending_eq_iff.mp hsame)

/-- Five of six dice count. Without the lowest of them, the lowest two of the three highest are two
equal dice, and they are so as well when the dice are rolled the other way round. -/
theorem run_selects_of_equal :
    ∃ pool after other : Pool,
      pool.dice = [⟨6, 3, true⟩, ⟨6, 1, true⟩, ⟨6, 5, false⟩, ⟨6, 3, true⟩, ⟨6, 6, true⟩,
        ⟨6, 2, true⟩] ∧
      (pool.qualify [.select .dropLowest 1, .select .keepHighest 3, .select .keepLowest 2]).run
        (⟨5, 7⟩ : Stepper) = (.ok after, ⟨5, 7⟩) ∧
      after.keptValues.Perm [3, 3] ∧
      (Pool.qualify ⟨6, pool.dice.reverse⟩
        [.select .dropLowest 1, .select .keepHighest 3, .select .keepLowest 2]).run
        (⟨5, 7⟩ : Stepper) = (.ok other, ⟨5, 7⟩) ∧
      other.keptSum = after.keptSum := by
  let pool : Pool :=
    ⟨6, [⟨6, 3, true⟩, ⟨6, 1, true⟩, ⟨6, 5, false⟩, ⟨6, 3, true⟩, ⟨6, 6, true⟩, ⟨6, 2, true⟩]⟩
  have hsorted : pool.ascending = [1, 2, 3, 3, 6] := by cbv
  obtain ⟨after, window, rfl, -, hrun, hvalues, -, -, hreordered⟩ :=
    run_selects pool [(.dropLowest, 1), (.keepHighest, 3), (.keepLowest, 2)] (⟨5, 7⟩ : Stepper)
  obtain ⟨other, hother, hsum⟩ := hreordered ⟨6, pool.dice.reverse⟩ (List.reverse_perm pool.dice)
  rw [hsorted] at hvalues
  exact ⟨pool, after, other, rfl, hrun, hvalues, hother, hsum⟩

end Pool

end Dicebox
