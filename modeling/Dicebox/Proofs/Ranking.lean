import Mathlib.Data.Finset.Card
import Mathlib.Data.List.Permutation
import Dicebox.Proofs.Replaying

/-!
# Dropping by rank

Dice are dropped by sorting the kept ones and taking the first few. What is dropped can be said
without any sorting: a die goes if few enough of the kept dice go before it. A die goes before
another one if its value goes first, and among dice of one value if it was rolled earlier, whichever
end of the ranking is dropped.

Sorting enters only once, through the fact that the dice left are those behind the first few of the
ranking. It is stated for the list of kept places, which are all different, and so a sorted list of
them is in strict order: the place of an entry in the ranking is the number of those before it.

## Main definitions

* `Pool.Ranks` — what it means to rank dice, from either end of the values.
* `Pool.keptIndices`, `Pool.valueAt` — the places of the kept dice, and the values there.
* `Pool.ahead` — the number of kept dice that go before a die.

## Main results

* `Pool.keptPlaces_dropFirst_perm` — what is left is what stands behind in the ranking.
* `Pool.mem_keptIndices_dropFirst` — a die is left if enough dice go before it.
* `Pool.keptCount_dropFirst` — how many dice are left.
* `Selection.notMem_keptIndices_apply_iff` — the dice that a selection drops.
-/

namespace Dicebox

namespace Pool

variable {ranking : UInt32 × Nat → UInt32 × Nat → Bool} {goesFirst : UInt32 → UInt32 → Prop}
  {pool after : Pool}

/-! ### Rankings -/

/-- A ranking goes by value from one end to the other, and among dice of one value by place, from
the earliest on. -/
structure Ranks (ranking : UInt32 × Nat → UInt32 × Nat → Bool)
    (goesFirst : UInt32 → UInt32 → Prop) : Prop where
  iff (a b : UInt32 × Nat) : ranking a b ↔ goesFirst a.1 b.1 ∨ a.1 = b.1 ∧ a.2 ≤ b.2
  asymm (v w : UInt32) : goesFirst v w → ¬ goesFirst w v
  trans (u v w : UInt32) : goesFirst u v → goesFirst v w → goesFirst u w
  connected (v w : UInt32) : goesFirst v w ∨ v = w ∨ goesFirst w v

/-- The lowest dice rank from the lowest value up. -/
theorem ranks_lowestFirst : Ranks lowestFirst (· < ·) where
  iff a b := by simp [lowestFirst]
  asymm _ _ := UInt32.lt_asymm
  trans _ _ _ := UInt32.lt_trans
  connected v w := by
    simp only [UInt32.lt_iff_toNat_lt, ← UInt32.toNat_inj]
    omega

/-- The highest dice rank from the highest value down. -/
theorem ranks_highestFirst : Ranks highestFirst (· > ·) where
  iff a b := by simp [highestFirst]
  asymm _ _ := UInt32.lt_asymm
  trans _ _ _ huv hvw := UInt32.lt_trans hvw huv
  connected v w := by
    simp only [gt_iff_lt, UInt32.lt_iff_toNat_lt, ← UInt32.toNat_inj]
    omega

namespace Ranks

theorem irrefl (h : Ranks ranking goesFirst) (v : UInt32) : ¬ goesFirst v v :=
  fun hv => h.asymm v v hv hv

/-- Of two dice the other one ranks strictly before if its value goes first, or its value is the
same and its place is earlier. -/
theorem not_iff (h : Ranks ranking goesFirst) (a b : UInt32 × Nat) :
    ¬ ranking a b ↔ goesFirst b.1 a.1 ∨ b.1 = a.1 ∧ b.2 < a.2 := by
  rw [h.iff]
  constructor
  · intro hnot
    rcases h.connected a.1 b.1 with hfirst | heq | hlast
    · exact absurd (.inl hfirst) hnot
    · exact .inr ⟨heq.symm, Nat.lt_of_not_le fun hle => hnot (.inr ⟨heq, hle⟩)⟩
    · exact .inl hlast
  · rintro (hlast | ⟨heq, hlt⟩) (hfirst | ⟨heq', hle⟩)
    · exact h.asymm _ _ hfirst hlast
    · exact h.irrefl b.1 (heq' ▸ hlast)
    · exact h.irrefl a.1 (heq ▸ hfirst)
    · exact Nat.not_lt_of_le hle hlt

theorem le_trans (h : Ranks ranking goesFirst) (a b c : UInt32 × Nat) :
    ranking a b → ranking b c → ranking a c := by
  rw [h.iff, h.iff, h.iff]
  rintro (hab | ⟨hab, hle⟩) (hbc | ⟨hbc, hle'⟩)
  · exact .inl (h.trans _ _ _ hab hbc)
  · exact .inl (hbc ▸ hab)
  · exact .inl (hab ▸ hbc)
  · exact .inr ⟨hab.trans hbc, hle.trans hle'⟩

theorem le_total (h : Ranks ranking goesFirst) (a b : UInt32 × Nat) :
    ranking a b || ranking b a := by
  by_cases hab : ranking a b
  · rw [hab, Bool.true_or]
  · have hba : ranking b a := by
      rw [h.iff]
      exact ((h.not_iff a b).mp hab).imp id fun hlt => ⟨hlt.1, Nat.le_of_lt hlt.2⟩
    rw [hba, Bool.or_true]

theorem le_antisymm (h : Ranks ranking goesFirst) (a b : UInt32 × Nat) (hab : ranking a b)
    (hba : ranking b a) : a = b := by
  rcases (h.iff a b).mp hab with hfirst | ⟨hvalue, hle⟩
  · exact absurd hba ((h.not_iff b a).mpr (.inl hfirst))
  · rcases (h.iff b a).mp hba with hlast | ⟨-, hle'⟩
    · exact absurd hab ((h.not_iff a b).mpr (.inl hlast))
    · exact Prod.ext hvalue (Nat.le_antisymm hle hle')

end Ranks

/-! ### Places -/

/-- The places of the kept dice are all different. -/
theorem nodup_keptPlaces (dice : List Die) : ((keptPlaces dice).map Prod.snd).Nodup := by
  have hsublist : List.Sublist ((keptPlaces dice).map Prod.snd) (dice.zipIdx.map Prod.snd) := by
    rw [keptPlaces, List.map_map]
    exact List.filter_sublist.map _
  rw [List.zipIdx_map_snd] at hsublist
  exact hsublist.nodup (List.nodup_range' 1)

/-- The values at the places of the kept dice are the kept values. -/
theorem map_fst_keptPlaces (pool : Pool) :
    (keptPlaces pool.dice).map Prod.fst = pool.keptValues := by
  have hkept : (pool.dice.zipIdx.filter fun entry => entry.1.kept).map Prod.fst =
      pool.dice.filter Die.kept := by
    conv_rhs => rw [← List.zipIdx_map_fst 0 pool.dice, List.filter_map]
    rfl
  rw [keptPlaces, keptValues, ← hkept, List.map_map, List.map_map]
  rfl

/-- There is a place for every kept die. -/
theorem length_keptPlaces (pool : Pool) : (keptPlaces pool.dice).length = pool.keptCount := by
  rw [← List.length_map Prod.fst, map_fst_keptPlaces, keptValues, List.length_map, keptCount]

/-- Dropping dice keeps every die at its place. -/
theorem zipIdx_dropAt (places : List Nat) (dice : List Die) :
    (dropAt places dice).zipIdx = dice.zipIdx.map fun entry =>
      (if places.contains entry.2 then entry.1.drop else entry.1, entry.2) := by
  refine List.ext_getElem (by simp [dropAt]) fun i hi hi' => ?_
  simp [dropAt]

/-- The dice that stay kept are those whose places are not dropped. -/
theorem keptPlaces_dropAt (places : List Nat) (dice : List Die) :
    keptPlaces (dropAt places dice) =
      (keptPlaces dice).filter fun entry => !places.contains entry.2 := by
  have hkept (dropped : Bool) (die : Die) :
      (if dropped then die.drop else die).kept = (!dropped && die.kept) := by
    cases dropped <;> rfl
  have hvalue (dropped : Bool) (die : Die) :
      (if dropped then die.drop else die).value = die.value := by
    cases dropped <;> rfl
  simp only [keptPlaces, zipIdx_dropAt, List.filter_map, List.map_map, List.filter_filter,
    Function.comp_def, hkept, hvalue]

/-- Of entries with different places, those that are not at the places of the first `n` are those
behind them. -/
theorem filter_notMem_take {ranked : List (UInt32 × Nat)} (h : (ranked.map Prod.snd).Nodup)
    (n : Nat) :
    ranked.filter (fun entry => !((ranked.take n).map Prod.snd).contains entry.2) =
      ranked.drop n := by
  have hapart := h
  rw [← List.take_append_drop n ranked, List.map_append, List.nodup_append] at hapart
  have htaken : (ranked.take n).filter
      (fun entry => !((ranked.take n).map Prod.snd).contains entry.2) = [] := by
    refine List.filter_eq_nil_iff.mpr fun entry hentry => ?_
    have hplace : entry.2 ∈ (ranked.take n).map Prod.snd := List.mem_map_of_mem hentry
    simp only [List.contains_iff_mem.mpr hplace, Bool.not_true, Bool.false_eq_true,
      not_false_eq_true]
  have hleft : (ranked.drop n).filter
      (fun entry => !((ranked.take n).map Prod.snd).contains entry.2) = ranked.drop n := by
    refine List.filter_eq_self.mpr fun entry hentry => ?_
    rw [Bool.not_eq_true', Bool.eq_false_iff, Ne, List.contains_iff_mem]
    exact fun hplace => hapart.2.2 _ hplace _ (List.mem_map_of_mem hentry) rfl
  conv_lhs => rw [← List.take_append_drop n ranked, List.filter_append]
  rw [List.take_append_drop, htaken, hleft, List.nil_append]

/-- What is left when dice are dropped by rank stands behind the first `n` in the ranking. -/
theorem keptPlaces_dropFirst_perm (ranking : UInt32 × Nat → UInt32 × Nat → Bool) (n : Nat)
    (pool : Pool) :
    (keptPlaces (pool.dropFirst ranking n).dice).Perm
      (((keptPlaces pool.dice).mergeSort ranking).drop n) := by
  set ranked := (keptPlaces pool.dice).mergeSort ranking with hranked
  have hperm : ranked.Perm (keptPlaces pool.dice) := List.mergeSort_perm _ ranking
  have hnodup : (ranked.map Prod.snd).Nodup :=
    (hperm.map Prod.snd).nodup_iff.mpr (nodup_keptPlaces pool.dice)
  rw [dropFirst, ← hranked, keptPlaces_dropAt, ← filter_notMem_take hnodup n]
  exact hperm.symm.filter _

/-- Dropping dice by rank drops as many as it says, or all of them if they are fewer. -/
theorem keptCount_dropFirst (ranking : UInt32 × Nat → UInt32 × Nat → Bool) (n : Nat)
    (pool : Pool) : (pool.dropFirst ranking n).keptCount = pool.keptCount - n := by
  rw [← length_keptPlaces, (keptPlaces_dropFirst_perm ranking n pool).length_eq, List.length_drop,
    List.length_mergeSort, length_keptPlaces]

@[simp] theorem keptCount_dropLowest (n : Nat) (pool : Pool) :
    (pool.dropLowest n).keptCount = pool.keptCount - n :=
  keptCount_dropFirst lowestFirst n pool

@[simp] theorem keptCount_dropHighest (n : Nat) (pool : Pool) :
    (pool.dropHighest n).keptCount = pool.keptCount - n :=
  keptCount_dropFirst highestFirst n pool

/-! ### The places of the kept dice -/

/-- The places of the dice that are kept. -/
def keptIndices (pool : Pool) : Finset Nat :=
  {i ∈ Finset.range pool.dice.length | pool.dice[i]?.any Die.kept}

/-- The value of the die at a place. -/
def valueAt (pool : Pool) (i : Nat) : UInt32 :=
  (pool.dice[i]?.map Die.value).getD 0

/-- A place is that of a kept die if such a die is there. -/
theorem mem_keptIndices {i : Nat} :
    i ∈ pool.keptIndices ↔ ∃ die, pool.dice[i]? = some die ∧ die.kept := by
  rw [keptIndices, Finset.mem_filter, Finset.mem_range]
  constructor
  · rintro ⟨hi, hkept⟩
    rw [List.getElem?_eq_getElem hi] at hkept ⊢
    exact ⟨_, rfl, hkept⟩
  · rintro ⟨die, hdie, hkept⟩
    rw [hdie]
    exact ⟨(List.getElem?_eq_some_iff.mp hdie).1, hkept⟩

/-- The kept dice are listed with their places and their values. -/
theorem mem_keptPlaces {entry : UInt32 × Nat} :
    entry ∈ keptPlaces pool.dice ↔
      entry.2 ∈ pool.keptIndices ∧ entry.1 = pool.valueAt entry.2 := by
  simp only [keptPlaces, List.mem_map, List.mem_filter, List.mem_zipIdx_iff_getElem?,
    mem_keptIndices, valueAt]
  constructor
  · rintro ⟨⟨die, i⟩, ⟨hdie, hkept⟩, rfl⟩
    exact ⟨⟨die, hdie, hkept⟩, by simp only [hdie, Option.map_some, Option.getD_some]⟩
  · rintro ⟨⟨die, hdie, hkept⟩, hvalue⟩
    rw [hdie, Option.map_some, Option.getD_some] at hvalue
    exact ⟨⟨die, entry.2⟩, ⟨hdie, hkept⟩, Prod.ext hvalue.symm rfl⟩

/-- Kept dice are counted by their places. -/
theorem countP_keptPlaces (pool : Pool) (p : UInt32 × Nat → Bool) :
    (keptPlaces pool.dice).countP p =
      Finset.card {i ∈ pool.keptIndices | p (pool.valueAt i, i)} := by
  have hnodup : (((keptPlaces pool.dice).filter p).map Prod.snd).Nodup :=
    (List.filter_sublist.map Prod.snd).nodup (nodup_keptPlaces pool.dice)
  have hset : (((keptPlaces pool.dice).filter p).map Prod.snd).toFinset =
      {i ∈ pool.keptIndices | p (pool.valueAt i, i)} := by
    ext i
    simp only [List.mem_toFinset, List.mem_map, List.mem_filter, mem_keptPlaces, Finset.mem_filter]
    constructor
    · rintro ⟨entry, ⟨⟨hkept, hvalue⟩, hp⟩, rfl⟩
      exact ⟨hkept, hvalue ▸ hp⟩
    · rintro ⟨hkept, hp⟩
      exact ⟨(pool.valueAt i, i), ⟨⟨hkept, rfl⟩, hp⟩, rfl⟩
  rw [← hset, List.toFinset_card_of_nodup hnodup, List.length_map, List.countP_eq_length_filter]

/-- There are as many places of kept dice as kept dice. -/
theorem card_keptIndices (pool : Pool) : pool.keptIndices.card = pool.keptCount := by
  have hcount := pool.countP_keptPlaces fun _ => true
  rwa [List.countP_true, length_keptPlaces, Finset.filter_true_of_mem fun _ _ => rfl,
    eq_comm] at hcount

/-- Dice that record the same show the same values. -/
theorem valueAt_congr (h : after.dice.map Die.draw = pool.dice.map Die.draw) :
    after.valueAt = pool.valueAt := by
  have hvalues (pool : Pool) (i : Nat) :
      pool.dice[i]?.map Die.value = (pool.dice.map Die.draw)[i]?.map Draw.value := by
    rw [List.getElem?_map, Option.map_map]
    rfl
  funext i
  rw [valueAt, valueAt, hvalues, hvalues, h]

/-! ### Ranks -/

/-- In a list in strict order, an entry stands behind the first `n` if at least `n` entries go
before it. -/
theorem mem_drop_iff_le_countP {α : Type} {le : α → α → Bool} {sorted : List α}
    (hsorted : sorted.Pairwise fun a b => le a b ∧ ¬ le b a) (hrefl : ∀ a, le a a) {a : α}
    {n : Nat} :
    a ∈ sorted.drop n ↔ a ∈ sorted ∧ n ≤ sorted.countP (!le a ·) := by
  induction sorted generalizing n with
  | nil => simp
  | cons first more ih =>
      obtain ⟨hfirst, hmore⟩ := List.pairwise_cons.mp hsorted
      cases n with
      | zero => simp
      | succ n =>
          rw [List.drop_succ_cons, ih hmore]
          by_cases ha : a ∈ more
          · -- The first entry goes before `a`, which is not it.
            rw [List.countP_cons_of_pos (by simp [(hfirst a ha).2])]
            simp [ha]
          · -- No entry goes before the first one.
            simp only [ha, false_and, List.mem_cons, or_false, false_iff, not_and, Nat.not_le]
            rintro rfl
            have hnone : (a :: more).countP (!le a ·) = 0 := by
              refine List.countP_eq_zero.mpr fun b hb => ?_
              rcases List.mem_cons.mp hb with rfl | hb
              · simp [hrefl]
              · simp [(hfirst b hb).1]
            omega

/-- The kept dice of a pool in the order of a ranking are in strict order. -/
theorem Ranks.pairwise_mergeSort (h : Ranks ranking goesFirst) (dice : List Die) :
    ((keptPlaces dice).mergeSort ranking).Pairwise fun a b => ranking a b ∧ ¬ ranking b a := by
  have hnodup : ((keptPlaces dice).mergeSort ranking).Nodup :=
    (List.mergeSort_perm _ _).nodup_iff.mpr (nodup_keptPlaces dice).of_map
  have hsorted := List.pairwise_mergeSort h.le_trans h.le_total (keptPlaces dice)
  exact hsorted.imp₂ (fun a b hab hne => ⟨hab, fun hba => hne (h.le_antisymm a b hab hba)⟩) hnodup

/-- The number of kept dice that go before the die at a place: those whose value goes first, and
those of the same value that were rolled earlier. -/
def ahead (goesFirst : UInt32 → UInt32 → Prop) [DecidableRel goesFirst] (pool : Pool) (i : Nat) :
    Nat :=
  Finset.card {j ∈ pool.keptIndices |
    goesFirst (pool.valueAt j) (pool.valueAt i) ∨ pool.valueAt j = pool.valueAt i ∧ j < i}

/-- When dice are dropped by rank, a die is left if at least as many go before it. -/
theorem mem_keptIndices_dropFirst [DecidableRel goesFirst] (h : Ranks ranking goesFirst)
    {n i : Nat} :
    i ∈ (pool.dropFirst ranking n).keptIndices ↔
      i ∈ pool.keptIndices ∧ n ≤ pool.ahead goesFirst i := by
  have hvalue : (pool.dropFirst ranking n).valueAt = pool.valueAt :=
    valueAt_congr (map_draw_dropAt _ pool.dice)
  have hleft : i ∈ (pool.dropFirst ranking n).keptIndices ↔
      (pool.valueAt i, i) ∈ ((keptPlaces pool.dice).mergeSort ranking).drop n := by
    rw [← (keptPlaces_dropFirst_perm ranking n pool).mem_iff, mem_keptPlaces, hvalue]
    simp only [and_true]
  have hplace : (pool.valueAt i, i) ∈ (keptPlaces pool.dice).mergeSort ranking ↔
      i ∈ pool.keptIndices := by
    rw [(List.mergeSort_perm _ _).mem_iff, mem_keptPlaces]
    simp only [and_true]
  have hrefl (a : UInt32 × Nat) : ranking a a := (h.iff a a).mpr (.inr ⟨rfl, Nat.le_refl _⟩)
  rw [hleft, mem_drop_iff_le_countP (h.pairwise_mergeSort pool.dice) hrefl, hplace,
    (List.mergeSort_perm _ _).countP_eq, countP_keptPlaces]
  simp only [Bool.not_eq_true', ← Bool.not_eq_true, h.not_iff, ahead]

/-- When the lowest dice are dropped, a die is left if at least as many go before it. -/
theorem mem_keptIndices_dropLowest {n i : Nat} :
    i ∈ (pool.dropLowest n).keptIndices ↔ i ∈ pool.keptIndices ∧ n ≤ pool.ahead (· < ·) i :=
  mem_keptIndices_dropFirst ranks_lowestFirst

/-- When the highest dice are dropped, a die is left if at least as many go before it. -/
theorem mem_keptIndices_dropHighest {n i : Nat} :
    i ∈ (pool.dropHighest n).keptIndices ↔ i ∈ pool.keptIndices ∧ n ≤ pool.ahead (· > ·) i :=
  mem_keptIndices_dropFirst ranks_highestFirst

end Pool

namespace Selection

/-- A selection leaves no die that was not kept before. -/
theorem keptIndices_apply_subset (which : Selection) (n : Nat) (pool : Pool) :
    (which.apply n pool).keptIndices ⊆ pool.keptIndices := by
  intro i hi
  cases which with
  | keepHighest | dropLowest => exact (Pool.mem_keptIndices_dropLowest.mp hi).1
  | keepLowest | dropHighest => exact (Pool.mem_keptIndices_dropHighest.mp hi).1

/-- As many kept dice are dropped as there are less than before. -/
theorem card_sdiff_keptIndices (which : Selection) (n : Nat) (pool : Pool) :
    (pool.keptIndices \ (which.apply n pool).keptIndices).card =
      pool.keptCount - (which.apply n pool).keptCount := by
  rw [Finset.card_sdiff_of_subset (which.keptIndices_apply_subset n pool), Pool.card_keptIndices,
    Pool.card_keptIndices]

/-- **Which dice are dropped.** A kept die is dropped with the `n` lowest if fewer than `n` kept
dice have a lower value, or the same value and an earlier place; and with the `n` highest if fewer
than `n` have a higher value, or the same value and an earlier place. Keeping `n` dice drops the
others in the same way. Selections change nothing else: a die that was not kept stays so, no die
moves or shows another value, and the number of dice that are dropped or kept is `n`, or all if they
are fewer. -/
theorem notMem_keptIndices_apply_iff (pool : Pool) (n : Nat) :
    (∀ i ∈ pool.keptIndices,
      (i ∉ (dropLowest.apply n pool).keptIndices ↔ pool.ahead (· < ·) i < n) ∧
      (i ∉ (dropHighest.apply n pool).keptIndices ↔ pool.ahead (· > ·) i < n) ∧
      (i ∉ (keepHighest.apply n pool).keptIndices ↔
        pool.ahead (· < ·) i < pool.keptCount - n) ∧
      (i ∉ (keepLowest.apply n pool).keptIndices ↔
        pool.ahead (· > ·) i < pool.keptCount - n)) ∧
    (∀ which : Selection, (which.apply n pool).keptIndices ⊆ pool.keptIndices ∧
      (which.apply n pool).dice.map Die.draw = pool.dice.map Die.draw) ∧
    (pool.keptIndices \ (dropLowest.apply n pool).keptIndices).card = min n pool.keptCount ∧
    (pool.keptIndices \ (dropHighest.apply n pool).keptIndices).card = min n pool.keptCount ∧
    (keepHighest.apply n pool).keptIndices.card = min n pool.keptCount ∧
    (keepLowest.apply n pool).keptIndices.card = min n pool.keptCount := by
  refine ⟨fun i hi => ⟨?_, ?_, ?_, ?_⟩, fun which => ?_, ?_, ?_, ?_, ?_⟩
  · rw [apply, Pool.mem_keptIndices_dropLowest, and_iff_right hi, Nat.not_le]
  · rw [apply, Pool.mem_keptIndices_dropHighest, and_iff_right hi, Nat.not_le]
  · rw [apply, Pool.mem_keptIndices_dropLowest, and_iff_right hi, Nat.not_le]
  · rw [apply, Pool.mem_keptIndices_dropHighest, and_iff_right hi, Nat.not_le]
  · exact ⟨which.keptIndices_apply_subset n pool, which.map_draw_apply n pool⟩
  · rw [card_sdiff_keptIndices, apply, Pool.keptCount_dropLowest]
    omega
  · rw [card_sdiff_keptIndices, apply, Pool.keptCount_dropHighest]
    omega
  · rw [Pool.card_keptIndices, apply, Pool.keptCount_dropLowest]
    omega
  · rw [Pool.card_keptIndices, apply, Pool.keptCount_dropHighest]
    omega

/-- Of two equal dice the earlier one is dropped, at either end of the ranking; a die that was
dropped before, whatever its value, is left out of account. -/
theorem notMem_keptIndices_apply_iff_of_equal :
    ∃ pool : Pool,
      pool.dice = [⟨6, 3, true⟩, ⟨6, 1, true⟩, ⟨6, 1, false⟩, ⟨6, 3, true⟩, ⟨6, 1, true⟩] ∧
      1 ∈ pool.keptIndices ∧ 4 ∈ pool.keptIndices ∧
      1 ∉ (dropLowest.apply 1 pool).keptIndices ∧ 4 ∈ (dropLowest.apply 1 pool).keptIndices ∧
      0 ∉ (dropHighest.apply 1 pool).keptIndices ∧ 3 ∈ (dropHighest.apply 1 pool).keptIndices := by
  let pool : Pool :=
    ⟨6, [⟨6, 3, true⟩, ⟨6, 1, true⟩, ⟨6, 1, false⟩, ⟨6, 3, true⟩, ⟨6, 1, true⟩]⟩
  have hdropped := (notMem_keptIndices_apply_iff pool 1).1
  refine ⟨pool, rfl, by decide, by decide, ?_, ?_, ?_, ?_⟩
  · exact (hdropped 1 (by decide)).1.mpr (by decide)
  · exact not_not.mp fun h => absurd ((hdropped 4 (by decide)).1.mp h) (by decide)
  · exact (hdropped 0 (by decide)).2.1.mpr (by decide)
  · exact not_not.mp fun h => absurd ((hdropped 3 (by decide)).2.1.mp h) (by decide)

end Selection

end Dicebox
