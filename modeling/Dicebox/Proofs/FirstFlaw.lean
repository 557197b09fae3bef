import Dicebox.Proofs.WellFormed

/-!
# The first flaw

The search for a flaw is a recursion with a running place and a running count of kept dice. This
module lays it out as a list: everything that is checked, in order, each check with the flaw that is
found if it fails, and with the words in which it is reported. Every check speaks for itself. Its
place is a position in the list of terms, and the dice that are kept where a qualifier is written
are those behind the qualifiers before it.

For each term its place is checked, then the sides of its dice if it is a group, then the qualifiers
of the group from left to right. What is checked last is that the terms do not end with an operator.

## Main definitions

* `Check`, `firstFailure` — a check, and the flaw of the first one that fails.
* `DiceGroup.checks`, `checks` — everything that is checked of a group and of terms.

## Main results

* `flaw?_eq_firstFailure` — the flaw that is found is that of the first check that fails.
* `firstFailure_eq_some_iff` — a check that fails although all before it pass.
* `message_flaw_of_mem_checks` — a flaw is reported in the words of its check.
-/

namespace Dicebox

/-- One thing that is checked: whether it is as it has to be, and if it is not, the flaw and the
words in which it is reported. -/
structure Check where
  passed : Bool
  flaw : Flaw
  report : String

/-- The flaw of the first check that fails, if one does. -/
def firstFailure (checks : List Check) : Option Flaw :=
  (checks.find? (!·.passed)).map Check.flaw

section

variable {check : Check} {checks : List Check} {flaw : Flaw}

/-- Where no check fails there is no flaw. -/
theorem firstFailure_nil : firstFailure [] = none := rfl

/-- A check that passes is of no consequence. -/
theorem firstFailure_cons_of_passed (h : check.passed = true) :
    firstFailure (check :: checks) = firstFailure checks := by
  rw [firstFailure, List.find?_cons_of_neg (by rw [h]; decide), firstFailure]

/-- Behind a check that fails nothing matters. -/
theorem firstFailure_cons_of_failed (h : check.passed = false) :
    firstFailure (check :: checks) = some check.flaw := by
  rw [firstFailure, List.find?_cons_of_pos (by rw [h]; rfl), Option.map_some]

/-- A failure among the first checks comes before all failures behind them. -/
theorem firstFailure_append (checks others : List Check) :
    firstFailure (checks ++ others) = (firstFailure checks).or (firstFailure others) := by
  rw [firstFailure, firstFailure, firstFailure, List.find?_append, Option.map_or]

/-- The first failure is that of a check which fails although all before it pass. -/
theorem firstFailure_eq_some_iff :
    firstFailure checks = some flaw ↔
      ∃ before check after, checks = before ++ check :: after ∧
        (∀ earlier ∈ before, earlier.passed = true) ∧ check.passed = false ∧ check.flaw = flaw := by
  rw [firstFailure, Option.map_eq_some_iff]
  constructor
  · rintro ⟨check, hfind, hflaw⟩
    obtain ⟨hfails, before, after, hchecks, hbefore⟩ := List.find?_eq_some_iff_append.mp hfind
    refine ⟨before, check, after, hchecks, fun earlier hearlier => ?_, ?_, hflaw⟩
    · simpa using hbefore earlier hearlier
    · simpa using hfails
  · rintro ⟨before, check, after, hchecks, hbefore, hfails, hflaw⟩
    refine ⟨check, List.find?_eq_some_iff_append.mpr ⟨?_, before, after, hchecks, ?_⟩, hflaw⟩
    · rw [hfails]
      rfl
    · intro earlier hearlier
      rw [hbefore earlier hearlier]
      rfl

end

/-! ### Groups -/

namespace DiceGroup

/-- The check of a qualifier that is written behind others. -/
def qualifierCheck (group : DiceGroup) (before : List Qualifier) (qualifier : Qualifier) : Check :=
  let kept := keptThrough group.count.toNat before
  { passed := qualifier.Accepts group.sides kept
    flaw := .inapplicable qualifier group kept
    report := "ill-formed dice group: '" ++ qualifier.text ++ "' cannot apply to " ++ group.text ++
      " with " ++ kept.repr ++ " dice kept" }

/-- What is checked of a group: its sides, and then its qualifiers from left to right. -/
def checks (group : DiceGroup) : List Check :=
  ⟨2 ≤ group.sides, .tooFewSides group, "ill-formed dice group: " ++ group.text⟩ ::
    group.qualifiers.mapIdx fun i qualifier =>
      group.qualifierCheck (group.qualifiers.take i) qualifier

/-- Behind others, the flaw of qualifiers is that of the first one whose check fails. -/
theorem qualifierFlaw?_eq_firstFailure (group : DiceGroup) (before qualifiers : List Qualifier) :
    group.qualifierFlaw? (keptThrough group.count.toNat before) qualifiers =
      firstFailure (qualifiers.mapIdx fun i qualifier =>
        group.qualifierCheck (before ++ qualifiers.take i) qualifier) := by
  induction qualifiers generalizing before with
  | nil => rfl
  | cons qualifier more ih =>
      have hkept : keptThrough group.count.toNat (before ++ [qualifier]) =
          qualifier.keptAfter (keptThrough group.count.toNat before) := by
        rw [keptThrough, List.foldl_append]
        rfl
      have hmore := ih (before ++ [qualifier])
      simp only [List.append_assoc, List.singleton_append] at hmore
      simp only [List.mapIdx_cons, List.take_zero, List.append_nil, List.take_succ_cons]
      rw [qualifierFlaw?]
      split
      · next haccepts => rw [firstFailure_cons_of_passed (decide_eq_true haccepts), ← hmore, hkept]
      · next haccepts => rw [firstFailure_cons_of_failed (decide_eq_false haccepts)]; rfl

/-- The flaw of a group is that of its first check that fails. -/
theorem flaw?_eq_firstFailure (group : DiceGroup) : group.flaw? = firstFailure group.checks := by
  rw [flaw?, checks]
  split
  · next hsides =>
      rw [firstFailure_cons_of_passed (decide_eq_true hsides)]
      exact group.qualifierFlaw?_eq_firstFailure [] group.qualifiers
  · next hsides => rw [firstFailure_cons_of_failed (decide_eq_false hsides)]

end DiceGroup

/-! ### Terms -/

namespace Term

/-- What is checked of a term in itself. -/
def ownChecks : Term → List Check
  | dice group => group.checks
  | constant _ | operator _ => []

/-- What is checked of a term that stands behind `index` others: its place, and then its dice. -/
def checks (term : Term) (index : Nat) : List Check :=
  { passed := term.isValue = decide (index % 2 = 0)
    flaw := .misplaced term index
    report := "ill-formed dice expression: unexpected " ++ term.outline ++ " at term " ++
      index.repr } :: term.ownChecks

/-- The flaw that a term has in itself is that of its first check that fails. -/
theorem flaw?_eq_firstFailure (term : Term) : term.flaw? = firstFailure term.ownChecks := by
  cases term with
  | dice group => exact group.flaw?_eq_firstFailure
  | constant | operator => rfl

/-- The first failure of a term in its place: the place itself, or else a flaw of the term. -/
theorem firstFailure_checks (term : Term) (index : Nat) :
    firstFailure (term.checks index) =
      if term.isValue = decide (index % 2 = 0) then term.flaw?
      else some (.misplaced term index) := by
  rw [checks]
  split
  · next hplace =>
      rw [firstFailure_cons_of_passed (decide_eq_true hplace), term.flaw?_eq_firstFailure]
  · next hplace => rw [firstFailure_cons_of_failed (decide_eq_false hplace)]

end Term

/-- What is checked of terms behind all of them: they do not end with an operator. -/
def lastCheck (length : Nat) : Check :=
  ⟨length % 2 = 1, .endsWithOperator, "ill-formed dice expression: ends with an operator"⟩

/-- What is checked of a list of terms, in the order in which it is checked. -/
def checks (terms : List Term) : List Check :=
  (terms.zipIdx.flatMap fun entry => entry.1.checks entry.2) ++ [lastCheck terms.length]

/-- Behind `index` terms, the flaw of terms is that of the first check that fails. -/
theorem flawFrom?_eq_firstFailure (index : Nat) (terms : List Term) :
    flawFrom? index terms =
      firstFailure ((terms.zipIdx index).flatMap (fun entry => entry.1.checks entry.2) ++
        [lastCheck (index + terms.length)]) := by
  induction terms generalizing index with
  | nil =>
      rw [flawFrom?, List.zipIdx_nil, List.flatMap_nil, List.nil_append, List.length_nil,
        Nat.add_zero]
      split
      · next hodd => rw [firstFailure_cons_of_passed (decide_eq_true hodd), firstFailure_nil]
      · next heven =>
          have hfails : (lastCheck index).passed = false := decide_eq_false heven
          rw [firstFailure_cons_of_failed hfails]
          rfl
  | cons term more ih =>
      have hlength : index + (term :: more).length = index + 1 + more.length := by
        rw [List.length_cons]
        omega
      rw [flawFrom?, ih, List.zipIdx_cons, List.flatMap_cons, List.append_assoc, hlength,
        firstFailure_append (term.checks index), term.firstFailure_checks]
      split
      · rfl
      · rfl

/-- **The flaw that is found is the first one.** It is the flaw of the first check that fails. -/
theorem flaw?_eq_firstFailure (terms : List Term) : flaw? terms = firstFailure (checks terms) := by
  rw [flaw?, flawFrom?_eq_firstFailure, Nat.zero_add]
  rfl

/-! ### Reports -/

/-- What is checked of a group is reported in the words of the check. -/
theorem DiceGroup.message_flaw_of_mem_checks {group : DiceGroup} {check : Check}
    (h : check ∈ group.checks) : check.flaw.message = check.report := by
  rcases List.mem_cons.mp h with rfl | h
  · rfl
  · obtain ⟨i, hi, rfl⟩ := List.mem_mapIdx.mp h
    rfl

/-- **A flaw is reported in the words of its check**: with the term and its place, with the group,
or with the qualifier, its group and the number of dice that are kept. -/
theorem message_flaw_of_mem_checks {terms : List Term} {check : Check} (h : check ∈ checks terms) :
    check.flaw.message = check.report := by
  rcases List.mem_append.mp h with h | h
  · obtain ⟨⟨term, index⟩, -, hcheck⟩ := List.mem_flatMap.mp h
    rcases List.mem_cons.mp hcheck with rfl | hown
    · rfl
    · cases term with
      | dice group => exact DiceGroup.message_flaw_of_mem_checks hown
      | constant | operator => cases hown
  · obtain rfl := List.mem_singleton.mp h
    rfl

end Dicebox
