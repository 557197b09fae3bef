import Dicebox.Amount

/-!
# Modifiers

The constants of an expression are recorded as *modifiers*, a table from keys to signed
amounts in ascending order of the keys. The constant that is written as the `k`th has the key
`constant_k`. Keys are ordered as texts, so `constant_10` comes before `constant_2`; the
written order is found again by the number in the key.

A table can also be read from outside, and then it may hold any keys.

## Main definitions

* `Modifiers` — the tables.
* `Modifiers.insert` — sets the amount of a key.
* `Modifiers.ofConstants` — the table of the constants of an expression.
* `Modifiers.total` — the sum of all amounts.
* `Modifiers.inOrder` — the entries in the order in which the constants are written.

## Main results

* `Modifiers.pairwise_insertEntry` — setting a key keeps the order of the keys.
-/

namespace Dicebox

/-- A table from keys to amounts, in ascending order of the keys, each key once. -/
structure Modifiers where
  entries : List (String × Amount)
  ascending : entries.Pairwise fun a b => a.1 < b.1
  deriving DecidableEq

namespace Modifiers

/-- The table without entries. -/
def empty : Modifiers :=
  ⟨[], .nil⟩

/-- Sets the amount of a key among entries in ascending order. -/
def insertEntry (key : String) (value : Amount) :
    List (String × Amount) → List (String × Amount)
  | [] => [(key, value)]
  | entry :: more =>
    if key < entry.1 then (key, value) :: entry :: more
    else if entry.1 < key then entry :: insertEntry key value more
    else (key, value) :: more

/-- Setting a key adds its entry and no other. -/
theorem mem_insertEntry {key : String} {value : Amount} {entries : List (String × Amount)}
    {entry : String × Amount} (h : entry ∈ insertEntry key value entries) :
    entry = (key, value) ∨ entry ∈ entries := by
  induction entries with
  | nil => simpa [insertEntry] using h
  | cons first more ih =>
    rw [insertEntry] at h
    split at h
    · simpa using h
    · split at h
      · rcases List.mem_cons.mp h with h | h
        · exact .inr (h ▸ List.mem_cons_self)
        · exact (ih h).imp_right (List.mem_cons_of_mem _)
      · exact (List.mem_cons.mp h).imp_right (List.mem_cons_of_mem _)

/-- Setting a key keeps the order of the keys. -/
theorem pairwise_insertEntry (key : String) (value : Amount)
    {entries : List (String × Amount)}
    (h : entries.Pairwise fun a b => a.1 < b.1) :
    (insertEntry key value entries).Pairwise fun a b => a.1 < b.1 := by
  induction entries with
  | nil => exact List.pairwise_singleton _ _
  | cons first more ih =>
    obtain ⟨hfirst, hmore⟩ := List.pairwise_cons.mp h
    rw [insertEntry]
    split
    · next hlt =>
      refine List.pairwise_cons.mpr ⟨fun entry hentry => ?_, h⟩
      rcases List.mem_cons.mp hentry with rfl | hentry
      · exact hlt
      · exact String.lt_trans hlt (hfirst entry hentry)
    · split
      · next hlt =>
        refine List.pairwise_cons.mpr ⟨fun entry hentry => ?_, ih hmore⟩
        rcases mem_insertEntry hentry with rfl | hentry
        · exact hlt
        · exact hfirst entry hentry
      · next hnot hnot' =>
        have hkey : key = first.1 :=
          String.le_antisymm (String.not_lt.mp hnot') (String.not_lt.mp hnot)
        exact List.pairwise_cons.mpr ⟨fun entry hentry => hkey ▸ hfirst entry hentry, hmore⟩

/-- Sets the amount of a key. -/
def insert (modifiers : Modifiers) (key : String) (value : Amount) : Modifiers :=
  ⟨insertEntry key value modifiers.entries,
    pairwise_insertEntry key value modifiers.ascending⟩

/-- The table that entries in any order make; of entries with one key the last one counts. -/
def ofEntries (entries : List (String × Amount)) : Modifiers :=
  entries.foldl (fun modifiers entry => modifiers.insert entry.1 entry.2) empty

/-- What the keys of constants begin with. -/
def stem : String := "constant_"

/-- The key of the constant that is written as the `ordinal`th. -/
def key (ordinal : Nat) : String :=
  stem ++ ordinal.repr

/-- The number in the key of a constant; other keys have none. -/
def ordinal? (key : String) : Option Nat :=
  (stem.toList.isPrefixOf? key.toList).bind Text.word64?

/-- The table of signed constants, given in the order in which they are written. -/
def ofConstants (constants : List Amount) : Modifiers :=
  constants.foldl (fun modifiers value =>
    modifiers.insert (key (modifiers.entries.length + 1)) value) empty

/-- The sum of all amounts, added up in the order of the keys. -/
def total (modifiers : Modifiers) : Amount :=
  modifiers.entries.foldl (fun sum entry => sum.plus entry.2) 0

/-- Whether the number of one key is not greater than that of another. A key without a
number comes before every key that has one. -/
def ordinalLE (a b : Option Nat) : Bool :=
  match a, b with
  | none, _ => true
  | some _, none => false
  | some m, some n => decide (m ≤ n)

/-- The entries by the number in their keys. Entries that the number does not tell apart stay
in the order of their keys. -/
def inOrder (modifiers : Modifiers) : List (String × Amount) :=
  modifiers.entries.mergeSort fun a b => ordinalLE (ordinal? a.1) (ordinal? b.1)

end Modifiers

end Dicebox
