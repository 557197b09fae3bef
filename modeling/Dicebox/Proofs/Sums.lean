import Mathlib.Algebra.BigOperators.Group.List.Basic
import Mathlib.Algebra.Ring.Int.Defs
import Mathlib.Algebra.Ring.Nat
import Dicebox.Pool
import Dicebox.Term

/-!
# Sums that stay within the amounts

Adding amounts saturates, and adding up the dice of a pool wraps. Neither happens while every
running sum is an amount itself; then a sum of amounts is the exact sum of the integers. What
saturates on the way may differ from the exact sum even where that is an amount, and which
running sums there are depends on the order of the summands.

## Main definitions

* `Amount.Fits` — the integers that are amounts.
* `Amount.RunFits` — the lists of integers all of whose running sums are amounts.
* `Operator.sign` — an integer with the sign that an operator gives it.
* `keptTotal` — what the kept dice among some dice add up to.

## Main results

* `Amount.toInt_foldl_nearest` — a saturating sum is exact if its running sums are amounts.
* `Amount.runFits_of_sum_natAbs_le` — they are, if the absolute values have a small sum.
* `Operator.apply_eq_nearest`, `Operator.toInt_signed` — what an operator does, in integers.
* `Pool.toInt_keptSum` — the sum of a pool is exact if it is an amount.
* `Pool.keptSum?_eq_none_iff` — a checked sum overflows exactly if the total is no amount.
-/

namespace Dicebox

namespace Amount

/-! ### Integers that are amounts -/

/-- An integer fits if it is an amount. -/
def Fits (n : Int) : Prop :=
  -2 ^ 63 ≤ n ∧ n ≤ 2 ^ 63 - 1

instance (n : Int) : Decidable (Fits n) :=
  inferInstanceAs (Decidable (_ ∧ _))

/-- An amount fits. -/
theorem fits_toInt (a : Amount) : Fits a.toInt := by
  have hmin := a.minValue_le_toInt
  have hmax := a.toInt_le
  rw [Int64.toInt_minValue] at hmin
  rw [Int64.toInt_maxValue] at hmax
  exact ⟨hmin, hmax⟩

/-- The amount closest to an integer that fits is that integer. -/
theorem toInt_nearest_of_fits {n : Int} (h : Fits n) : (nearest n).toInt = n := by
  have hmin := Int64.toInt_minValue
  have hmax := Int64.toInt_maxValue
  obtain ⟨hlow, hhigh⟩ := h
  rw [toInt_nearest]
  omega

/-- All running sums of a list fit, those of none and of all its values included. -/
def RunFits (values : List Int) : Prop :=
  ∀ n, Fits (values.take n).sum

/-- Only so many running sums differ as there are values. -/
theorem runFits_iff {values : List Int} :
    RunFits values ↔ ∀ n < values.length + 1, Fits (values.take n).sum := by
  refine ⟨fun h n _ => h n, fun h n => ?_⟩
  rcases Nat.lt_or_ge n (values.length + 1) with hn | hn
  · exact h n hn
  · rw [List.take_of_length_le (by omega), ← List.take_length (l := values)]
    exact h _ (Nat.lt_succ_self _)

instance (values : List Int) : Decidable (RunFits values) :=
  decidable_of_iff _ runFits_iff.symm

/-- A sum that saturates is the exact sum if its running sums fit. -/
theorem toInt_foldl_nearest (values : List Int) (start : Amount)
    (h : ∀ n, Fits (start.toInt + (values.take n).sum)) :
    (values.foldl (fun sum value => nearest (sum.toInt + value)) start).toInt =
      start.toInt + values.sum := by
  induction values generalizing start with
  | nil => exact (Int.add_zero _).symm
  | cons value values ih =>
      have hfirst : Fits (start.toInt + value) := by simpa using h 1
      have hnext := toInt_nearest_of_fits hfirst
      rw [List.foldl_cons, ih, hnext, List.sum_cons, Int.add_assoc]
      intro n
      have hrun := h (n + 1)
      rw [List.take_succ_cons, List.sum_cons, ← Int.add_assoc] at hrun
      rwa [hnext]

/-- The same for a sum that starts at zero. -/
theorem toInt_foldl_nearest_zero {values : List Int} (h : RunFits values) :
    (values.foldl (fun sum value => nearest (sum.toInt + value)) 0).toInt = values.sum := by
  have hzero : (0 : Amount).toInt = 0 := rfl
  rw [toInt_foldl_nearest, hzero, Int.zero_add]
  intro n
  rw [hzero, Int.zero_add]
  exact h n

/-- The absolute value of a sum is at most the sum of the absolute values. -/
theorem natAbs_sum_le (values : List Int) :
    values.sum.natAbs ≤ (values.map Int.natAbs).sum := by
  induction values with
  | nil => exact Nat.le_refl 0
  | cons value values ih =>
      rw [List.sum_cons, List.map_cons, List.sum_cons]
      exact Nat.le_trans (Int.natAbs_add_le _ _) (Nat.add_le_add_left ih _)

/-- Running sums fit if the absolute values add up to an amount. -/
theorem runFits_of_sum_natAbs_le {values : List Int}
    (h : (values.map Int.natAbs).sum ≤ 2 ^ 63 - 1) : RunFits values := by
  intro n
  have hsum := natAbs_sum_le (values.take n)
  have htake : ((values.take n).map Int.natAbs).sum ≤ (values.map Int.natAbs).sum := by
    rw [← List.sum_take_add_sum_drop (values.map Int.natAbs) n, List.map_take]
    exact Nat.le_add_right _ _
  constructor <;> omega

end Amount

/-! ### Operators -/

namespace Operator

/-- An integer with the sign that the operator before it gives it. -/
def sign : Operator → Int → Int
  | plus, n => n
  | minus, n => -n

@[simp] theorem natAbs_sign (op : Operator) (n : Int) : (op.sign n).natAbs = n.natAbs := by
  cases op with
  | plus => rfl
  | minus => exact Int.natAbs_neg n

/-- A value is added with its sign, and the sum saturates. -/
theorem apply_eq_nearest (op : Operator) (total value : Amount) :
    op.apply total value = .nearest (total.toInt + op.sign value.toInt) := by
  cases op with
  | plus => rfl
  | minus => exact congrArg Amount.nearest (Int.sub_eq_add_neg)

/-- Giving an amount its sign is exact, unless it is the smallest amount behind a minus. -/
theorem toInt_signed {op : Operator} {value : Amount}
    (h : ¬ (op = .minus ∧ value = Int64.minValue)) :
    (op.signed value).toInt = op.sign value.toInt := by
  cases op with
  | plus => rfl
  | minus =>
      have hne : value.toInt ≠ -2 ^ 63 := by
        rw [← Int64.toInt_minValue]
        exact fun heq => h ⟨rfl, Int64.toInt_inj.mp heq⟩
      obtain ⟨hmin, hmax⟩ := Amount.fits_toInt value
      exact Amount.toInt_nearest_of_fits ⟨by omega, by omega⟩

end Operator

/-! ### Pools -/

/-- What the kept dice among some dice add up to. -/
def keptTotal (dice : List Die) : Nat :=
  ((dice.filter Die.kept).map fun die => die.value.toNat).sum

/-- Adding up values does not wrap if the sum is an amount. -/
theorem toInt_foldl_add (values : List UInt32) (start : Amount) (hstart : 0 ≤ start.toInt)
    (h : start.toInt + (values.map UInt32.toNat).sum ≤ 2 ^ 63 - 1) :
    (values.foldl (fun sum value => sum + .ofNat value.toNat) start).toInt =
      start.toInt + (values.map UInt32.toNat).sum := by
  induction values generalizing start with
  | nil => exact (Int.add_zero _).symm
  | cons value values ih =>
      rw [List.map_cons, List.sum_cons, Int.natCast_add] at h ⊢
      have hvalue : (Int64.ofNat value.toNat).toInt = value.toNat :=
        Int64.toInt_ofNat_of_lt (by have := value.toNat_lt; omega)
      have hnext : (start + Int64.ofNat value.toNat).toInt = start.toInt + value.toNat := by
        rw [Int64.toInt_add, hvalue]
        exact Int.bmod_eq_of_le (by omega) (by omega)
      rw [List.foldl_cons, ih _ (by omega) (by omega), hnext, Int.add_assoc]

/-- The values of a pool that count add up to the total of its kept dice. -/
theorem Pool.sum_keptValues (pool : Pool) :
    (pool.keptValues.map UInt32.toNat).sum = keptTotal pool.dice := by
  rw [keptValues, List.map_map]
  rfl

/-- The sum of a pool is what its kept dice add up to, if that is an amount. -/
theorem Pool.toInt_keptSum {pool : Pool} (h : keptTotal pool.dice ≤ 2 ^ 63 - 1) :
    pool.keptSum.toInt = keptTotal pool.dice := by
  have hzero : (0 : Amount).toInt = 0 := rfl
  rw [keptSum, toInt_foldl_add, pool.sum_keptValues, hzero, Int.zero_add]
  · exact Int.le_refl 0
  · rw [pool.sum_keptValues, hzero]
    omega

/-- One checked addition of a value to a sum that is not negative fails exactly if the result is no
amount, and is exact otherwise. -/
theorem Amount.add?_ofNat (start : Amount) (value : UInt32) (hstart : 0 ≤ start.toInt) :
    (2 ^ 63 - 1 < start.toInt + value.toNat → start.add? (.ofNat value.toNat) = none) ∧
      (start.toInt + value.toNat ≤ 2 ^ 63 - 1 →
        start.add? (.ofNat value.toNat) = some (start + .ofNat value.toNat)) := by
  have hvalue : (Int64.ofNat value.toNat).toInt = value.toNat :=
    Int64.toInt_ofNat_of_lt (by have := value.toNat_lt; omega)
  constructor
  · intro hlarge
    have hfits := (Amount.fits_toInt (start + .ofNat value.toNat)).2
    exact if_neg fun heq => by omega
  · intro hsmall
    refine if_pos ?_
    rw [Int64.toInt_add, hvalue]
    exact Int.bmod_eq_of_le (by omega) (by omega)

/-- A checked sum of values overflows exactly if what they add up to is no amount: as no value is
negative, a running sum that is too large stays so. -/
theorem foldlM_add?_eq_none_iff (values : List UInt32) (start : Amount) (hstart : 0 ≤ start.toInt) :
    values.foldlM (fun sum value => sum.add? (.ofNat value.toNat)) start = none ↔
      2 ^ 63 - 1 < start.toInt + (values.map UInt32.toNat).sum := by
  induction values generalizing start with
  | nil =>
      have hfits := start.fits_toInt.2
      refine iff_of_false nofun ?_
      rw [List.map_nil, List.sum_nil]
      omega
  | cons value values ih =>
      obtain ⟨hlarge, hsmall⟩ := start.add?_ofNat value hstart
      rw [List.foldlM_cons, List.map_cons, List.sum_cons, Int.natCast_add]
      rcases Int.lt_or_le (2 ^ 63 - 1) (start.toInt + value.toNat) with h | h
      · rw [hlarge h]
        exact iff_of_true rfl (by omega)
      · have hnext : (start + Int64.ofNat value.toNat).toInt = start.toInt + value.toNat := by
          have hone := toInt_foldl_add [value] start hstart (by simpa using h)
          simpa using hone
        rw [hsmall h, Option.bind_eq_bind, Option.bind_some, ih _ (by omega), hnext, Int.add_assoc]

/-- The checked sum of a pool overflows exactly if what its kept dice add up to is no amount. -/
theorem Pool.keptSum?_eq_none_iff {pool : Pool} :
    pool.keptSum? = none ↔ 2 ^ 63 - 1 < keptTotal pool.dice := by
  have hzero : (0 : Amount).toInt = 0 := rfl
  rw [keptSum?, foldlM_add?_eq_none_iff pool.keptValues 0 (Int.le_refl 0), pool.sum_keptValues,
    hzero]
  omega

end Dicebox
