import Mathlib.Data.List.Basic
import Mathlib.Data.List.Induction
import Dicebox.Modifiers

/-!
# The table of the constants

The constants of an expression are entered into a table one by one, each under a key that ends in
its number. The table stands in the order of its keys, which are texts, so from the tenth constant
on its order is not the written one. Nothing is lost by this: no key is given twice, and the
numbers in the keys bring the written order back.

The numbers are read back as 64-bit words, so they tell constants apart up to that many.

## Main definitions

* `Modifiers.numbered` — the constants under their keys, in written order.
* `Modifiers.inKeyOrder` — values that are numbered, in the order of the keys of their numbers.

## Main results

* `Modifiers.key_injective`, `Modifiers.ordinal?_key` — what the keys say.
* `Modifiers.entries_ofConstants_perm` — the table holds every constant, once.
* `Modifiers.inOrder_ofConstants`, `Modifiers.map_snd_inOrder_ofConstants` — the written order is
  found again.
* `Modifiers.map_snd_entries_ofConstants` — the amounts of the table, in its own order.
* `Modifiers.inKeyOrder_of_length_le` — up to nine constants the two orders agree.
-/

namespace Dicebox.Modifiers

/-! ### Keys -/

/-- Different numbers have different keys. -/
theorem key_injective {m n : Nat} (h : key m = key n) : m = n := by
  have hrepr : m.repr = n.repr := (String.append_right_inj stem).mp h
  have hdigits : Nat.toDigits 10 m = Nat.toDigits 10 n := by
    rw [← Nat.toList_repr, hrepr, Nat.toList_repr]
  rw [← Nat.ofDigitChars_ten_toDigits (n := m), hdigits, Nat.ofDigitChars_ten_toDigits]

/-- A number in decimal begins with no sign. -/
theorem toDigits_ne_plus_cons (n : Nat) (more : List Char) : Nat.toDigits 10 n ≠ '+' :: more := by
  intro h
  have hdigit : '+'.isDigit :=
    Nat.isDigit_of_mem_toDigits (by decide) (by decide) (h ▸ List.mem_cons_self)
  cases hdigit

/-- A number in decimal is read back, if it is a word. -/
theorem word64?_toDigits {n : Nat} (h : n < UInt64.size) :
    Text.word64? (Nat.toDigits 10 n) = some n := by
  have hdigits : (Nat.toDigits 10 n).all Char.isDigit :=
    List.all_eq_true.mpr fun c hc => Nat.isDigit_of_mem_toDigits (by decide) (by decide) hc
  rw [Text.word64?, Nat.ofDigitChars_ten_toDigits, if_pos ⟨Nat.toDigits_ne_nil, hdigits, h⟩]
  exact toDigits_ne_plus_cons n

/-- The number in a key is the number that the key was made of. -/
theorem ordinal?_key {n : Nat} (h : n < UInt64.size) : ordinal? (key n) = some n := by
  have hprefix : stem.toList.isPrefixOf? (key n).toList = some n.repr.toList :=
    List.isPrefixOf?_eq_some_iff_append_eq.mpr String.toList_append.symm
  rw [ordinal?, hprefix, Nat.toList_repr]
  exact word64?_toDigits h

/-! ### Numbered constants -/

/-- The constants under their keys, in the order in which they are written. -/
def numbered (constants : List Amount) : List (String × Amount) :=
  (constants.zipIdx 1).map fun (value, ordinal) => (key ordinal, value)

/-- One more constant has the next number. -/
theorem numbered_concat (constants : List Amount) (value : Amount) :
    numbered (constants ++ [value]) =
      numbered constants ++ [(key (constants.length + 1), value)] := by
  rw [numbered, List.zipIdx_append, List.map_append, Nat.add_comm 1]
  rfl

/-- The keys are numbered from one, without a gap. -/
theorem exists_of_mem_numbered {constants : List Amount} {entry : String × Amount}
    (h : entry ∈ numbered constants) :
    ∃ (i : Nat) (hi : i < constants.length), entry = (key (i + 1), constants[i]) := by
  obtain ⟨⟨value, ordinal⟩, hmem, rfl⟩ := List.mem_map.mp h
  obtain ⟨hpos, hlt, hvalue⟩ := List.mem_zipIdx hmem
  refine ⟨ordinal - 1, by omega, ?_⟩
  rw [Nat.sub_add_cancel hpos, ← hvalue]

/-- An entry is known by its key. -/
theorem eq_of_mem_numbered {constants : List Amount} {a b : String × Amount}
    (ha : a ∈ numbered constants) (hb : b ∈ numbered constants) (h : a.1 = b.1) : a = b := by
  obtain ⟨i, hi, rfl⟩ := exists_of_mem_numbered ha
  obtain ⟨j, hj, rfl⟩ := exists_of_mem_numbered hb
  obtain rfl : i = j := Nat.succ.inj (key_injective h)
  rfl

/-- The numbers ascend. -/
theorem pairwise_zipIdx {α : Type} (values : List α) (start : Nat) :
    (values.zipIdx start).Pairwise fun a b => a.2 < b.2 := by
  rw [List.pairwise_iff_getElem]
  intro i j hi hj hlt
  rw [List.getElem_zipIdx, List.getElem_zipIdx]
  exact Nat.add_lt_add_left hlt start

/-! ### The table -/

/-- A new key is entered without touching the others. -/
theorem insertEntry_perm {key : String} (value : Amount) {entries : List (String × Amount)}
    (h : ∀ entry ∈ entries, entry.1 ≠ key) :
    (insertEntry key value entries).Perm ((key, value) :: entries) := by
  induction entries with
  | nil => exact .refl _
  | cons first more ih =>
      have hmore := ih fun entry hentry => h entry (List.mem_cons_of_mem _ hentry)
      rw [insertEntry]
      split
      · exact .refl _
      · split
        · exact (hmore.cons first).trans (.swap _ _ _)
        · next hnot hnot' =>
            have hkey : first.1 = key :=
              String.le_antisymm (String.not_lt.mp hnot) (String.not_lt.mp hnot')
            exact absurd hkey (h first List.mem_cons_self)

/-- The table holds every constant under its key, and nothing else. Induction on the constants
from the last one: it is entered under a number that no other constant has. -/
theorem entries_ofConstants_perm (constants : List Amount) :
    (ofConstants constants).entries.Perm (numbered constants) := by
  induction constants using List.reverseRecOn with
  | nil => exact .refl _
  | append_singleton constants value ih =>
      have hlength : (ofConstants constants).entries.length = constants.length := by
        rw [ih.length_eq, numbered, List.length_map, List.length_zipIdx]
      have hfresh : ∀ entry ∈ (ofConstants constants).entries,
          entry.1 ≠ key (constants.length + 1) := by
        intro entry hentry hkey
        obtain ⟨i, hi, rfl⟩ := exists_of_mem_numbered (ih.mem_iff.mp hentry)
        have := key_injective hkey
        omega
      have hinsert : (ofConstants (constants ++ [value])).entries =
          insertEntry (key (constants.length + 1)) value (ofConstants constants).entries := by
        rw [ofConstants, List.foldl_concat, ← ofConstants, insert, hlength]
      rw [hinsert, numbered_concat]
      exact (insertEntry_perm value hfresh).trans
        ((ih.cons _).trans (List.perm_append_singleton _ _).symm)

/-- The number of entries is the number of constants. -/
theorem length_entries_ofConstants (constants : List Amount) :
    (ofConstants constants).entries.length = constants.length := by
  rw [(entries_ofConstants_perm constants).length_eq, numbered, List.length_map,
    List.length_zipIdx]

/-! ### The written order -/

/-- Keys with a number are ordered by it. -/
theorem ordinalLE_key_iff {m n : Nat} (hm : m < UInt64.size) (hn : n < UInt64.size) :
    ordinalLE (ordinal? (key m)) (ordinal? (key n)) ↔ m ≤ n := by
  rw [ordinal?_key hm, ordinal?_key hn]
  exact decide_eq_true_iff

/-- The order of the numbers is transitive. -/
theorem ordinalLE_trans {a b c : Option Nat} (hab : ordinalLE a b) (hbc : ordinalLE b c) :
    ordinalLE a c := by
  cases a with
  | none => rfl
  | some l =>
      cases b with
      | none => cases hab
      | some m =>
          cases c with
          | none => cases hbc
          | some n =>
              exact decide_eq_true
                (Nat.le_trans (of_decide_eq_true hab) (of_decide_eq_true hbc))

/-- The order of the numbers is antisymmetric. -/
theorem ordinalLE_antisymm {a b : Option Nat} (hab : ordinalLE a b) (hba : ordinalLE b a) :
    a = b := by
  cases a with
  | none =>
      cases b with
      | none => rfl
      | some n => cases hba
  | some m =>
      cases b with
      | none => cases hab
      | some n =>
          have hsame := Nat.le_antisymm (of_decide_eq_true hab) (of_decide_eq_true hba)
          exact congrArg some hsame

/-- The order of the numbers is total. -/
theorem ordinalLE_total (a b : Option Nat) : ordinalLE a b || ordinalLE b a := by
  cases a with
  | none => rfl
  | some m =>
      cases b with
      | none => rfl
      | some n => simpa [ordinalLE] using Nat.le_total m n

/-- Listing the entries only moves them. -/
theorem inOrder_perm (modifiers : Modifiers) : modifiers.inOrder.Perm modifiers.entries :=
  List.mergeSort_perm _ _

/-- The entries are listed by the numbers in their keys. -/
theorem pairwise_ordinalLE_inOrder (modifiers : Modifiers) :
    modifiers.inOrder.Pairwise fun a b => ordinalLE (ordinal? a.1) (ordinal? b.1) :=
  @List.pairwise_mergeSort (String × Amount) (fun a b => ordinalLE (ordinal? a.1) (ordinal? b.1))
    (fun _ _ _ => ordinalLE_trans) (fun _ _ => ordinalLE_total _ _) modifiers.entries

/-- The entries of the table by their numbers are the constants as they are written. -/
theorem inOrder_ofConstants {constants : List Amount} (h : constants.length < UInt64.size) :
    (ofConstants constants).inOrder = numbered constants := by
  have hperm : (ofConstants constants).inOrder.Perm (numbered constants) :=
    (inOrder_perm _).trans (entries_ofConstants_perm constants)
  have hsorted := pairwise_ordinalLE_inOrder (ofConstants constants)
  refine hperm.eq_of_pairwise (fun a b ha hb hab hba => ?_) hsorted ?_
  · obtain ⟨i, hi, rfl⟩ := exists_of_mem_numbered (hperm.mem_iff.mp ha)
    obtain ⟨j, hj, rfl⟩ := exists_of_mem_numbered hb
    have hle := (ordinalLE_key_iff (by omega) (by omega)).mp hab
    have hge := (ordinalLE_key_iff (by omega) (by omega)).mp hba
    obtain rfl : i = j := by omega
    rfl
  · refine List.pairwise_map.mpr ((pairwise_zipIdx constants 1).imp_of_mem ?_)
    intro a b ha hb hlt
    have hlength := (List.mem_zipIdx ha).2.1
    have hlength' := (List.mem_zipIdx hb).2.1
    exact (ordinalLE_key_iff (by omega) (by omega)).mpr (Nat.le_of_lt hlt)

/-- The amounts by the numbers in their keys are the constants. -/
theorem map_snd_inOrder_ofConstants {constants : List Amount}
    (h : constants.length < UInt64.size) :
    (ofConstants constants).inOrder.map Prod.snd = constants := by
  have hvalues : (constants.zipIdx 1).map Prod.fst = constants := List.zipIdx_map_fst 1 constants
  rw [inOrder_ofConstants h, numbered, List.map_map]
  exact hvalues

/-! ### The order of the keys -/

/-- Values that are numbered from one, in the order of the keys of their numbers. -/
def inKeyOrder {α : Type} (values : List α) : List α :=
  ((values.zipIdx 1).mergeSort fun a b => decide (key a.2 ≤ key b.2)).map Prod.fst

/-- The order of the keys only moves the values. -/
theorem inKeyOrder_perm {α : Type} (values : List α) : (inKeyOrder values).Perm values := by
  have hperm := (List.mergeSort_perm (values.zipIdx 1)
    fun a b => decide (key a.2 ≤ key b.2)).map Prod.fst
  rwa [List.zipIdx_map_fst] at hperm

/-- The order of the keys depends on no value. -/
theorem inKeyOrder_map {α β : Type} (f : α → β) (values : List α) :
    inKeyOrder (values.map f) = (inKeyOrder values).map f := by
  have hsort := List.map_mergeSort (l := values.zipIdx 1) (f := Prod.map f id)
    (r := fun a b => decide (key a.2 ≤ key b.2)) (s := fun a b => decide (key a.2 ≤ key b.2))
    (by simp only [Prod.map_snd, id_eq, implies_true])
  rw [inKeyOrder, inKeyOrder, List.zipIdx_map, ← hsort, List.map_map, List.map_map]
  rfl

/-- The table stands in the order of its keys. -/
theorem entries_ofConstants (constants : List Amount) :
    (ofConstants constants).entries =
      (numbered constants).mergeSort fun a b => decide (a.1 ≤ b.1) := by
  have hperm := entries_ofConstants_perm constants
  have hsorted := @List.pairwise_mergeSort (String × Amount) (fun a b => decide (a.1 ≤ b.1))
    (fun _ _ _ hab hbc => decide_eq_true (String.le_trans (of_decide_eq_true hab)
      (of_decide_eq_true hbc)))
    (fun a b => by simpa using String.le_total a.1 b.1) (numbered constants)
  refine (hperm.trans (List.mergeSort_perm _ _).symm).eq_of_pairwise
    (fun a b ha hb hab hba => ?_) ?_ hsorted
  · exact eq_of_mem_numbered (hperm.mem_iff.mp ha) ((List.mergeSort_perm _ _).mem_iff.mp hb)
      (String.le_antisymm (of_decide_eq_true hab) (of_decide_eq_true hba))
  · exact (ofConstants constants).ascending.imp fun hlt =>
      decide_eq_true (String.not_lt.mp (String.lt_asymm hlt))

/-- The amounts of the table are the constants in the order of their keys. -/
theorem map_snd_entries_ofConstants (constants : List Amount) :
    (ofConstants constants).entries.map Prod.snd = inKeyOrder constants := by
  have hsort := List.map_mergeSort (l := constants.zipIdx 1)
    (f := fun entry : Amount × Nat => (key entry.2, entry.1))
    (r := fun a b => decide (key a.2 ≤ key b.2)) (s := fun a b => decide (a.1 ≤ b.1))
    fun _ _ _ _ => rfl
  rw [entries_ofConstants, numbered, ← hsort, List.map_map]
  rfl

/-- With one digit, keys are ordered as their numbers are. -/
theorem key_le_key_of_lt_ten : ∀ n < 10, ∀ m < n, key m ≤ key n := by
  decide +kernel

/-- Up to nine values the order of the keys is the order of the values. -/
theorem inKeyOrder_of_length_le {α : Type} {values : List α} (h : values.length ≤ 9) :
    inKeyOrder values = values := by
  rw [inKeyOrder, List.mergeSort_of_pairwise, List.zipIdx_map_fst]
  refine (pairwise_zipIdx values 1).imp_of_mem fun ha hb hlt => decide_eq_true ?_
  have hlength := (List.mem_zipIdx hb).2.1
  exact key_le_key_of_lt_ten _ (by omega) _ hlt

end Dicebox.Modifiers
