import Mathlib.Algebra.Order.BigOperators.Group.Finset
import Mathlib.Algebra.Order.Floor.Div
import Mathlib.Data.FinEnum
import Mathlib.Order.Interval.Finset.Nat
import Dicebox.Pool
import Dicebox.Source

/-!
# Fair dice out of fair words

A word of 32 bits is multiplied by the number of sides. What is above bit 32 of the product gives
the face, and the word counts when what is below lies low enough. This module counts the words: all
faces are given by equally many of them, and no more than half of all words are passed over. So a
die is fair when the words are.

The products of the words that give a face lie in one stretch behind a multiple of 2³². The stretch
is as wide as the number of sides, shifted left until its top bit is bit 31, and so no wider than
2³² and a power of two times the distance of two products. A stretch that is a whole number of
distances wide has that many products in it, wherever it begins.

## Main definitions

* `leadingZeros` — the zeros in front of the highest one of a word.
* `fairWidth` — the width of the part below the cut that counts.

## Main results

* `fairZone_eq` — the zone that counts, by leading zeros.
* `WordScript.face?_eq_some_iff_window` — the products that give a face lie in one stretch.
* `WordScript.card_face?` — how many words give a face.
* `WordScript.card_isSome_face?` — how many words count.
* `WordScript.drawFrom_eq_ok_iff` — which words a draw uses up.
* `WordScript.draw_fair` — dice out of words are fair.
-/

namespace Dicebox

open Finset

/-! ### The zone that counts -/

/-- The number of zeros in front of the highest one of a word. -/
def leadingZeros (sides : UInt32) : Nat :=
  sides.toBitVec.clz.toNat

variable {sides face word : UInt32}

/-- How many values below the cut count: the number of sides, shifted left by its leading zeros. -/
def fairWidth (sides : UInt32) : Nat :=
  sides.toNat * 2 ^ leadingZeros sides

/-- A number that is not zero is positive. -/
theorem toNat_pos (h : sides ≠ 0) : 0 < sides.toNat :=
  Nat.pos_of_ne_zero fun hzero => h (UInt32.toNat_inj.mp hzero)

/-- A face of a die is a word. -/
theorem toNat_ofNat_succ {k : Nat} (hk : k < sides.toNat) :
    (UInt32.ofNat (k + 1)).toNat = k + 1 :=
  UInt32.toNat_ofNat_of_lt' (Nat.lt_of_le_of_lt hk sides.toNat_lt)

/-- A number of sides lies between two powers of two, by its leading zeros. -/
theorem leadingZeros_bounds (h : sides ≠ 0) :
    leadingZeros sides ≤ 31 ∧ 2 ^ (31 - leadingZeros sides) ≤ sides.toNat ∧
      sides.toNat < 2 ^ (32 - leadingZeros sides) := by
  have hne : sides.toBitVec ≠ 0#32 := fun hzero => h (UInt32.toBitVec_inj.mp hzero)
  have hlow : 2 ^ (31 - leadingZeros sides) ≤ sides.toNat :=
    BitVec.two_pow_sub_clz_le_toNat_of_ne_zero (by decide) hne
  have hhigh : sides.toNat < 2 ^ (32 - leadingZeros sides) := BitVec.toNat_lt_two_pow_sub_clz
  refine ⟨?_, hlow, hhigh⟩
  by_contra hzeros
  have hexp : 32 - leadingZeros sides = 0 := by omega
  have hpos := Nat.two_pow_pos (31 - leadingZeros sides)
  rw [hexp] at hhigh
  omega

/-- Shifted by its leading zeros, a number of sides has bit 31 as its top bit. -/
theorem fairWidth_bounds (h : sides ≠ 0) :
    2 ^ 31 ≤ fairWidth sides ∧ fairWidth sides < 2 ^ 32 := by
  obtain ⟨hzeros, hlow, hhigh⟩ := leadingZeros_bounds h
  have hpos := Nat.two_pow_pos (leadingZeros sides)
  constructor
  · calc 2 ^ 31 = 2 ^ (31 - leadingZeros sides) * 2 ^ leadingZeros sides := by
          rw [← Nat.pow_add, Nat.sub_add_cancel hzeros]
      _ ≤ fairWidth sides := Nat.mul_le_mul_right _ hlow
  · calc fairWidth sides < 2 ^ (32 - leadingZeros sides) * 2 ^ leadingZeros sides :=
          Nat.mul_lt_mul_of_pos_right hhigh hpos
      _ = 2 ^ 32 := by rw [← Nat.pow_add, Nat.sub_add_cancel (by omega)]

/-- The highest part below the cut that counts, by the leading zeros of the number of sides. -/
theorem fairZone_eq (h : sides ≠ 0) : fairZone sides = fairWidth sides - 1 := by
  obtain ⟨hzeros, hlow, hhigh⟩ := leadingZeros_bounds h
  have hlog : sides.toNat.log2 = 31 - leadingZeros sides := by
    refine (Nat.log2_eq_iff (toNat_pos h).ne').mpr ⟨hlow, ?_⟩
    rwa [show 31 - leadingZeros sides + 1 = 32 - leadingZeros sides by omega]
  rw [fairZone, hlog, Nat.sub_sub_self hzeros, Nat.shiftLeft_eq, fairWidth]

/-- The product of a word and a number of sides, without its low 32 bits, is below the number of
sides. -/
theorem product_div_lt (word : UInt32) (h : sides ≠ 0) :
    word.toNat * sides.toNat / 2 ^ 32 < sides.toNat := by
  rw [Nat.div_lt_iff_lt_mul (by decide), Nat.mul_comm]
  exact Nat.mul_lt_mul_of_pos_left word.toNat_lt (toNat_pos h)

namespace WordScript

/-! ### Counting words -/

/-- A word counts when its product lies low enough below the cut, and gives the face above it. -/
theorem face?_eq_some_iff (h : sides ≠ 0) :
    face? sides word = some face ↔
      word.toNat * sides.toNat % 2 ^ 32 < fairWidth sides ∧
        face.toNat = 1 + word.toNat * sides.toNat / 2 ^ 32 := by
  have hwidth := (fairWidth_bounds h).1
  have hface := toNat_ofNat_succ (product_div_lt word h)
  rw [Nat.add_comm] at hface
  have hle : word.toNat * sides.toNat % 2 ^ 32 ≤ fairZone sides ↔
      word.toNat * sides.toNat % 2 ^ 32 < fairWidth sides := by
    rw [fairZone_eq h]
    omega
  rw [face?]
  split
  · next hlow =>
      change some (UInt32.ofNat (1 + word.toNat * sides.toNat / 2 ^ 32)) = some face ↔ _
      rw [and_iff_right (hle.mp hlow), Option.some_inj, ← UInt32.toNat_inj, hface, eq_comm]
  · next hhigh => exact iff_of_false nofun fun hlow => hhigh (hle.mpr hlow.1)

/-- As many numbers in a row as there are steps of width `s` in a stretch have their multiples of
`s` in it, wherever it begins. -/
theorem mem_Ico_ceilDiv_iff {s start steps n : Nat} (hs : 0 < s) :
    n ∈ Ico (start ⌈/⌉ s) (start ⌈/⌉ s + steps) ↔ start ≤ n * s ∧ n * s < start + s * steps := by
  rw [Finset.mem_Ico, ceilDiv_le_iff_le_mul hs, Nat.mul_comm n s]
  refine and_congr_right fun _ => ?_
  rcases Nat.lt_or_ge n steps with hn | hn
  · refine iff_of_true (by omega) ?_
    have := Nat.mul_lt_mul_of_pos_left hn hs
    omega
  · obtain ⟨k, rfl⟩ := Nat.exists_eq_add_of_le' hn
    rw [Nat.add_lt_add_iff_right, ← Nat.not_le, ceilDiv_le_iff_le_mul hs, Nat.mul_add]
    omega

/-- The products of the words that give a face lie in one stretch behind a multiple of 2³². -/
theorem face?_eq_some_iff_window (h : sides ≠ 0) (hface : 1 ≤ face) :
    face? sides word = some face ↔
      (face.toNat - 1) * 2 ^ 32 ≤ word.toNat * sides.toNat ∧
        word.toNat * sides.toNat < (face.toNat - 1) * 2 ^ 32 + fairWidth sides := by
  have hone : 1 ≤ face.toNat := UInt32.le_iff_toNat_le.mp hface
  have hwidth := (fairWidth_bounds h).2
  have hsplit := Nat.div_add_mod (word.toNat * sides.toNat) (2 ^ 32)
  rw [face?_eq_some_iff h]
  generalize word.toNat * sides.toNat = product at *
  omega

/-- **Every face is given by equally many words.** -/
theorem card_face? (h : sides ≠ 0) (hface : 1 ≤ face) (hsides : face ≤ sides) :
    #{word : UInt32 | face? sides word = some face} = 2 ^ leadingZeros sides := by
  have hone : 1 ≤ face.toNat := UInt32.le_iff_toNat_le.mp hface
  have hle : face.toNat ≤ sides.toNat := UInt32.le_iff_toNat_le.mp hsides
  have hwidth := (fairWidth_bounds h).2
  let first := ((face.toNat - 1) * 2 ^ 32) ⌈/⌉ sides.toNat
  have hmem (n : Nat) : n ∈ Ico first (first + 2 ^ leadingZeros sides) ↔
      (face.toNat - 1) * 2 ^ 32 ≤ n * sides.toNat ∧
        n * sides.toNat < (face.toNat - 1) * 2 ^ 32 + fairWidth sides :=
    mem_Ico_ceilDiv_iff (toNat_pos h)
  have hword (n : Nat) (hn : n ∈ Ico first (first + 2 ^ leadingZeros sides)) : n < 2 ^ 32 := by
    have hlow := ((hmem n).mp hn).2
    refine Nat.lt_of_mul_lt_mul_right (a := sides.toNat) ?_
    calc n * sides.toNat < (face.toNat - 1) * 2 ^ 32 + 2 ^ 32 := by omega
      _ = face.toNat * 2 ^ 32 := by
        rw [← Nat.succ_mul, Nat.succ_eq_add_one, Nat.sub_add_cancel hone]
      _ ≤ 2 ^ 32 * sides.toNat := by
        rw [Nat.mul_comm]
        exact Nat.mul_le_mul_left _ hle
  calc #{word : UInt32 | face? sides word = some face}
      = #(Ico first (first + 2 ^ leadingZeros sides)) := by
        refine Finset.card_nbij' UInt32.toNat UInt32.ofNat (fun word hword => ?_) (fun n hn => ?_)
          (fun word _ => UInt32.ofNat_toNat) (fun n hn => ?_)
        · rw [Finset.mem_coe, Finset.mem_filter_univ] at hword
          exact (hmem _).mpr ((face?_eq_some_iff_window h hface).mp hword)
        · rw [Finset.mem_coe, Finset.mem_filter_univ, face?_eq_some_iff_window h hface,
            UInt32.toNat_ofNat_of_lt' (hword n hn)]
          exact (hmem n).mp hn
        · exact UInt32.toNat_ofNat_of_lt' (hword n hn)
    _ = 2 ^ leadingZeros sides := by rw [Nat.card_Ico, Nat.add_sub_cancel_left]

/-- The words that count are told apart by what is above the cut, one less than the face. -/
theorem face?_eq_some_ofNat_iff (h : sides ≠ 0) {k : Nat} (hk : k < sides.toNat) :
    face? sides word = some (.ofNat (k + 1)) ↔
      (face? sides word).isSome ∧ word.toNat * sides.toNat / 2 ^ 32 = k := by
  have hface := toNat_ofNat_succ hk
  rw [Option.isSome_iff_exists]
  constructor
  · intro hword
    have hvalue := ((face?_eq_some_iff h).mp hword).2
    rw [hface] at hvalue
    exact ⟨⟨_, hword⟩, by omega⟩
  · rintro ⟨⟨face, hword⟩, rfl⟩
    rw [face?_eq_some_iff h, hface]
    exact ⟨((face?_eq_some_iff h).mp hword).1, Nat.add_comm _ _⟩

/-- The words that count are as many as the values below the cut that do. -/
theorem card_isSome_face? (h : sides ≠ 0) :
    #{word : UInt32 | (face? sides word).isSome} = fairWidth sides := by
  let above (word : UInt32) : Nat := word.toNat * sides.toNat / 2 ^ 32
  let counted : Finset UInt32 := {word : UInt32 | (face? sides word).isSome}
  have hmaps : Set.MapsTo above counted (range sides.toNat) :=
    fun word _ => Finset.mem_coe.mpr (Finset.mem_range.mpr (product_div_lt word h))
  have hfiber : ∀ k ∈ range sides.toNat,
      #{word ∈ counted | above word = k} = 2 ^ leadingZeros sides := by
    intro k hk
    have hk : k < sides.toNat := Finset.mem_range.mp hk
    have hface := toNat_ofNat_succ hk
    have hone : 1 ≤ UInt32.ofNat (k + 1) := by
      rw [UInt32.le_iff_toNat_le, hface]
      exact Nat.le_add_left 1 k
    have hle : UInt32.ofNat (k + 1) ≤ sides := by
      rw [UInt32.le_iff_toNat_le, hface]
      exact hk
    rw [← card_face? h hone hle, Finset.filter_filter]
    refine congrArg Finset.card (Finset.filter_congr fun word _ => ?_)
    exact (face?_eq_some_ofNat_iff h hk).symm
  calc (#counted)
      = ∑ k ∈ range sides.toNat, #{word ∈ counted | above word = k} :=
        Finset.card_eq_sum_card_fiberwise hmaps
    _ = ∑ _k ∈ range sides.toNat, 2 ^ leadingZeros sides := Finset.sum_congr rfl hfiber
    _ = fairWidth sides := by
        rw [Finset.sum_const, Finset.card_range, smul_eq_mul, fairWidth]

/-- A face that a word gives is a face of the die. -/
theorem face?_bounds (h : sides ≠ 0) (hface : face? sides word = some face) :
    1 ≤ face ∧ face ≤ sides := by
  have hvalue := ((face?_eq_some_iff h).mp hface).2
  have hdiv := product_div_lt word h
  constructor
  · rw [UInt32.le_iff_toNat_le, hvalue]
    exact Nat.le_add_right _ _
  · rw [UInt32.le_iff_toNat_le]
    omega

/-! ### Drawing -/

/-- A draw uses up the words that do not count and the first one that does. -/
theorem drawFrom_eq_ok_iff {words left : List UInt32} :
    drawFrom sides words = (.ok face, left) ↔
      ∃ passed word, words = passed ++ word :: left ∧
        (∀ other ∈ passed, face? sides other = none) ∧ face? sides word = some face := by
  induction words with
  | nil =>
      refine iff_of_false (fun h => nomatch congrArg Prod.fst h) ?_
      rintro ⟨passed, word, hwords, -⟩
      exact List.append_ne_nil_of_right_ne_nil passed (List.cons_ne_nil word left) hwords.symm
  | cons first words ih =>
      rw [drawFrom]
      cases hfirst : face? sides first with
      | some value =>
          constructor
          · intro h
            cases h
            exact ⟨[], first, rfl, nofun, hfirst⟩
          · rintro ⟨- | ⟨other, passed⟩, word, hwords, hpassed, hword⟩
            · obtain ⟨rfl, rfl⟩ := List.cons.inj hwords
              cases hfirst.symm.trans hword
              rfl
            · obtain ⟨rfl, -⟩ := List.cons.inj hwords
              cases hfirst.symm.trans (hpassed first List.mem_cons_self)
      | none =>
          refine ih.trans ⟨?_, ?_⟩
          · rintro ⟨passed, word, rfl, hpassed, hword⟩
            exact ⟨first :: passed, word, rfl, List.forall_mem_cons.mpr ⟨hfirst, hpassed⟩, hword⟩
          · rintro ⟨- | ⟨other, passed⟩, word, hwords, hpassed, hword⟩
            · obtain ⟨rfl, -⟩ := List.cons.inj hwords
              cases hfirst.symm.trans hword
            · obtain ⟨rfl, rfl⟩ := List.cons.inj hwords
              exact ⟨passed, word, rfl, (List.forall_mem_cons.mp hpassed).2, hword⟩

/-- When no word counts, a draw uses up all of them. -/
theorem drawFrom_of_forall_none {words : List UInt32}
    (h : ∀ word ∈ words, face? sides word = none) :
    drawFrom sides words = (.error .outOfWords, []) := by
  induction words with
  | nil => rfl
  | cons first words ih =>
      obtain ⟨hfirst, hwords⟩ := List.forall_mem_cons.mp h
      rw [drawFrom, hfirst]
      exact ih hwords

/-- A draw from a list of words, if the die has sides. -/
theorem draw_eq (h : sides ≠ 0) (script : WordScript) :
    DieSource.draw sides script =
      ((drawFrom sides script.words).1, ⟨(drawFrom sides script.words).2⟩) :=
  if_neg h

end WordScript

/-- **Dice out of words are fair.** A word counts when its product with the number of sides, below
bit 32, lies in the zone, and gives the face that is above; this is a face of the die. Every face is
given by equally many words, two to the number of leading zeros of the number of sides, and half of
all words count at least. Drawing uses up the words that do not count and the first one that does;
if none does, it uses up all words and fails. And rolling a die is drawing once, and accepts
whatever is drawn. -/
theorem WordScript.draw_fair (h : sides ≠ 0) :
    (∀ word face : UInt32, face? sides word = some face ↔
      word.toNat * sides.toNat % 2 ^ 32 ≤ sides.toNat <<< leadingZeros sides - 1 ∧
        face.toNat = 1 + word.toNat * sides.toNat / 2 ^ 32) ∧
    (∀ word face : UInt32, face? sides word = some face → 1 ≤ face ∧ face ≤ sides) ∧
    (∀ face : UInt32, 1 ≤ face → face ≤ sides →
      #{word : UInt32 | face? sides word = some face} = 2 ^ leadingZeros sides) ∧
    2 ^ 31 ≤ #{word : UInt32 | (face? sides word).isSome} ∧
    (∀ (words left : List UInt32) (face : UInt32),
      DieSource.draw sides (⟨words⟩ : WordScript) = (.ok face, ⟨left⟩) ↔
        ∃ passed word, words = passed ++ word :: left ∧
          (∀ other ∈ passed, face? sides other = none) ∧ face? sides word = some face) ∧
    (∀ words : List UInt32, (∀ word ∈ words, face? sides word = none) →
      DieSource.draw sides (⟨words⟩ : WordScript) = (.error .outOfWords, ⟨[]⟩)) ∧
    ∀ script : WordScript, (rollDie sides).run script =
      (((DieSource.draw sides script).1.map fun face => (⟨sides, face, true⟩ : Die)).mapError
        Fault.shortage, (DieSource.draw sides script).2) := by
  have hdraw (words left : List UInt32) (face : UInt32) :
      DieSource.draw sides (⟨words⟩ : WordScript) = (.ok face, ⟨left⟩) ↔
        ∃ passed word, words = passed ++ word :: left ∧
          (∀ other ∈ passed, face? sides other = none) ∧ face? sides word = some face := by
    rw [← drawFrom_eq_ok_iff, draw_eq h, Prod.ext_iff, Prod.ext_iff, WordScript.mk.injEq]
  refine ⟨fun word face => ?_, fun word face => face?_bounds h, fun face => card_face? h, ?_,
    hdraw, fun words hwords => ?_, fun script => ?_⟩
  · have hpos := (fairWidth_bounds h).1
    rw [face?_eq_some_iff h, Nat.shiftLeft_eq, ← fairWidth]
    refine and_congr_left fun _ => ?_
    omega
  · rw [card_isSome_face? h]
    exact (fairWidth_bounds h).1
  · rw [draw_eq h, drawFrom_of_forall_none hwords]
  · rw [rollDie, Rolling.run]
    obtain ⟨words⟩ := script
    rcases hanswer : DieSource.draw sides (⟨words⟩ : WordScript) with ⟨shortage | face, left⟩
    · rfl
    · obtain ⟨_, word, -, -, hword⟩ := (hdraw words left.words face).mp hanswer
      simp only [if_pos (face?_bounds h hword)]
      rfl

/-- A die with six sides: of four words, two are passed over and the third is drawn. -/
theorem WordScript.draw_fair_of_six :
    (6 : UInt32) ≠ 0 ∧ #{word : UInt32 | face? 6 word = some 4} = 2 ^ 29 ∧
      2 ^ 31 ≤ #{word : UInt32 | (face? 6 word).isSome} ∧
      DieSource.draw 6 (⟨[715827882, 4294967295, 2147483648, 7]⟩ : WordScript) =
        (.ok 4, ⟨[7]⟩) := by
  have hsides : (6 : UInt32) ≠ 0 := by decide
  have hzeros : leadingZeros 6 = 29 := by decide +kernel
  obtain ⟨-, -, hcard, hhalf, hdraw, -⟩ := WordScript.draw_fair hsides
  have hfour := hcard 4 (by decide) (by decide)
  rw [hzeros] at hfour
  refine ⟨hsides, hfour, hhalf, (hdraw _ _ _).mpr ?_⟩
  refine ⟨[715827882, 4294967295], 2147483648, rfl, ?_, by decide +kernel⟩
  exact List.forall_mem_cons.mpr
    ⟨by decide +kernel, List.forall_mem_singleton.mpr (by decide +kernel)⟩

end Dicebox
