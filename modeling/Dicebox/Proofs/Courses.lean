import Dicebox.Proofs.FirstFlaw
import Dicebox.Proofs.OwnDice
import Dicebox.Proofs.Replaying

/-!
# What becomes of a list of values

A roll that is given a list of values takes them one by one, and it can stop early: because the
expression has a flaw, because the list is used up, because a value is no face of the die that it
was taken for, or because a sum of dice overflows. This module says for every list where the roll
stops, how this is reported, what it has taken until then, and that it does not look further.

Only the first reason has to do with the expression. Behind it, a computation that rolls dice is
`Checked`, that is, at every die it goes on with a face and refuses anything else, and beside this
only an overflow makes it fail. Rolling a die is checked, so whoever only rolls dice is. The three
courses that a checked computation can take follow by induction on the tree.

## Main definitions

* `Draw.IsFace`, `Draw.answered` — a draw that shows a face, and how an observer notes it down.
* `Rolling.Checked` — the computations that only fail by refusing an answer or by an overflow.
* `Course` — what a run comes to on a list of values.

## Main results

* `Rolling.Checked.course` — a checked computation takes one of the three courses.
* `Expression.roll_checked` — rolling an expression without a flaw is checked.
* `Expression.roll_run_replay` — every way in which a roll can go on a list of values.
-/

namespace Dicebox

variable {α β σ : Type}

/-- A draw shows a face of its die. -/
def Draw.IsFace (draw : Draw) : Prop :=
  1 ≤ draw.value ∧ draw.value ≤ draw.sides

/-- What an observer notes down of a draw. -/
def Draw.answered (draw : Draw) : UInt32 × Except Shortage UInt32 :=
  (draw.sides, .ok draw.value)

/-! ### Checked computations -/

namespace Rolling

/-- At every die, a computation goes on with a face and refuses anything else, and if it fails in
another way, then because a sum overflows. -/
def Checked : Rolling α → Prop
  | done _ => True
  | failed fault => fault = .overflow
  | ask sides next => ∀ value,
      ((⟨sides, value⟩ : Draw).IsFace → (next value).Checked) ∧
        (¬ (⟨sides, value⟩ : Draw).IsFace → next value = failed (.outOfRange value sides))

/-- Two checked steps are checked. -/
theorem Checked.bind {rolling : Rolling α} {f : α → Rolling β} (h : rolling.Checked)
    (hf : ∀ value, (f value).Checked) : (rolling >>= f).Checked := by
  induction rolling with
  | done value => exact hf value
  | failed => exact h
  | ask sides next ih =>
      rw [ask_bind, Checked]
      intro value
      obtain ⟨hgoes, hrefuses⟩ := h value
      refine ⟨fun hface => ih value (hgoes hface), fun hface => ?_⟩
      rw [hrefuses hface, failed_bind]

end Rolling

variable {sides : UInt32}

/-- Rolling a die is checked. -/
theorem rollDie_checked : (rollDie sides).Checked := by
  refine fun value => ⟨fun ⟨hpos, hle⟩ => ?_, fun hface => if_neg hface⟩
  simp only [if_pos (And.intro hpos hle)]
  trivial

/-- A computation that only rolls dice is checked. -/
theorem Rolling.OnlyRolls.checked {post : α → Prop} {rolling : Rolling α}
    (h : rolling.OnlyRolls sides post) : rolling.Checked := by
  induction h with
  | done => trivial
  | die _ ih => exact rollDie_checked.bind ih

variable {build : Build}

/-- Rolling a group and adding up its dice is checked. -/
theorem DiceGroup.rollSummed_checked (group : DiceGroup) : (group.rollSummed build).Checked := by
  refine group.roll_onlyRolls.checked.bind fun pool => ?_
  split
  · exact rfl
  · trivial

/-- Rolling terms is checked. -/
theorem contributions_checked (op : Operator) (terms : List Term) :
    (contributions build op terms).Checked := by
  induction terms generalizing op with
  | nil => trivial
  | cons term more ih =>
      cases term with
      | operator next => exact ih next
      | constant value => exact (ih op).bind fun _ => trivial
      | dice group =>
          exact group.rollSummed_checked.bind fun _ => (ih op).bind fun _ => trivial

/-- An expression with a flaw is not rolled. -/
theorem Expression.roll_of_flaw {expression : Expression} {flaw : Flaw}
    (h : flaw? expression.terms = some flaw) : expression.roll build = .failed (.flawed flaw) := by
  rw [roll, h]

/-- Rolling an expression without a flaw is checked. -/
theorem Expression.roll_checked {expression : Expression} (h : flaw? expression.terms = none) :
    (expression.roll build).Checked := by
  rw [roll, h]
  exact (contributions_checked .plus expression.terms).bind fun _ => trivial

/-! ### Courses -/

/-- What a run comes to on a list of values, whatever was noted down before it. -/
inductive Course (rolling : Rolling α) : List UInt32 → Prop
  /-- It takes what it asks for and comes to its end, or stops because a sum overflows, and would do
  so with any values behind those that it leaves. -/
  | ends (draws : List Draw) (left : List UInt32) (result : Except Fault α) :
      (∀ draw ∈ draws, draw.IsFace) → (∀ fault, result = .error fault → fault = .overflow) →
      (∀ asked more,
        rolling.run (⟨⟨draws.map Draw.value ++ left ++ more⟩, asked⟩ : Observed Replay) =
          (result, ⟨⟨left ++ more⟩, asked ++ draws.map Draw.answered⟩)) →
      Course rolling (draws.map Draw.value ++ left)
  /-- It refuses a value, and would do so with any values behind it. -/
  | refuses (draws : List Draw) (left : List UInt32) (last : Draw) :
      (∀ draw ∈ draws, draw.IsFace) → ¬ last.IsFace →
      (∀ asked more,
        rolling.run
            (⟨⟨draws.map Draw.value ++ last.value :: left ++ more⟩, asked⟩ : Observed Replay) =
          (.error (.outOfRange last.value last.sides),
            ⟨⟨left ++ more⟩, asked ++ draws.map Draw.answered ++ [last.answered]⟩)) →
      Course rolling (draws.map Draw.value ++ last.value :: left)
  /-- It takes all values and asks for one more. -/
  | starves (draws : List Draw) (sides : UInt32) :
      (∀ draw ∈ draws, draw.IsFace) →
      (∀ asked,
        rolling.run (⟨⟨draws.map Draw.value⟩, asked⟩ : Observed Replay) =
          (.error (.shortage (.outOfValues sides)),
            ⟨⟨[]⟩, asked ++ draws.map Draw.answered ++ [(sides, .error (.outOfValues sides))]⟩)) →
      Course rolling (draws.map Draw.value)

/-- A computation that asks for a die takes the next value and goes on. -/
theorem run_ask_observed (next : UInt32 → Rolling α) (draw : Draw) (values : List UInt32)
    (asked : List (UInt32 × Except Shortage UInt32)) :
    (Rolling.ask draw.sides next).run (⟨⟨draw.value :: values⟩, asked⟩ : Observed Replay) =
      (next draw.value).run ⟨⟨values⟩, asked ++ [draw.answered]⟩ :=
  rfl

/-- The course after a face is the course from the die on. -/
theorem Course.ask {next : UInt32 → Rolling α} {draw : Draw} (hface : draw.IsFace)
    {values : List UInt32} (h : Course (next draw.value) values) :
    Course (.ask draw.sides next) (draw.value :: values) := by
  -- In every course the new draw is put in front of the others, and before the rest of the notes.
  cases h with
  | ends draws left result hfaces hresult hrun =>
      refine .ends (draw :: draws) left result (List.forall_mem_cons.mpr ⟨hface, hfaces⟩) hresult ?_
      intro asked more
      refine (run_ask_observed next draw _ asked).trans ((hrun _ more).trans ?_)
      rw [List.append_assoc]
      rfl
  | refuses draws left last hfaces hlast hrun =>
      refine .refuses (draw :: draws) left last (List.forall_mem_cons.mpr ⟨hface, hfaces⟩) hlast ?_
      intro asked more
      refine (run_ask_observed next draw _ asked).trans ((hrun _ more).trans ?_)
      rw [List.append_assoc asked]
      rfl
  | starves draws sides hfaces hrun =>
      refine .starves (draw :: draws) sides (List.forall_mem_cons.mpr ⟨hface, hfaces⟩) ?_
      intro asked
      refine (run_ask_observed next draw _ asked).trans ((hrun _).trans ?_)
      rw [List.append_assoc asked]
      rfl

/-- A checked computation takes one of the courses on every list of values. -/
theorem Rolling.Checked.course {rolling : Rolling α} (h : rolling.Checked)
    (values : List UInt32) : Course rolling values := by
  induction rolling generalizing values with
  | done value =>
      refine .ends [] values (.ok value) nofun nofun fun asked more => ?_
      rw [Rolling.run, List.map_nil, List.map_nil, List.append_nil, List.nil_append]
  | failed fault =>
      obtain rfl : fault = .overflow := h
      refine .ends [] values (.error .overflow) nofun ?_ fun asked more => ?_
      · rintro _ ⟨⟩
        rfl
      · rw [Rolling.run, List.map_nil, List.map_nil, List.append_nil, List.nil_append]
  | ask sides next ih =>
      cases values with
      | nil =>
          refine .starves [] sides nofun fun asked => ?_
          rw [List.map_nil, List.map_nil, List.append_nil]
          rfl
      | cons value values =>
          obtain ⟨hgoes, hrefuses⟩ := h value
          by_cases hface : (⟨sides, value⟩ : Draw).IsFace
          · exact .ask hface (ih value (hgoes hface) values)
          · refine .refuses [] values ⟨sides, value⟩ nofun hface fun asked more => ?_
            refine (run_ask_observed next ⟨sides, value⟩ _ asked).trans ?_
            rw [hrefuses hface, List.map_nil, List.append_nil]
            rfl

/-! ### Expressions -/

/-- Observing a source changes nothing of a run. -/
theorem run_observed [DieSource σ] (rolling : Rolling α) (source : σ)
    (asked : List (UInt32 × Except Shortage UInt32)) :
    ((rolling.run (⟨source, asked⟩ : Observed σ)).1,
      (rolling.run (⟨source, asked⟩ : Observed σ)).2.source) = rolling.run source := by
  induction rolling generalizing source asked with
  | done | failed => rfl
  | ask sides next ih =>
      simp only [Rolling.run]
      cases hdraw : DieSource.draw sides source with
      | mk answer between =>
          cases answer with
          | ok value => simp only [DieSource.draw, hdraw, ih]
          | error shortage => simp only [DieSource.draw, hdraw]

/-- An observed run shows what happens without the observer. -/
theorem run_of_run_observed [DieSource σ] {rolling : Rolling α} {source left : σ}
    {asked noted : List (UInt32 × Except Shortage UInt32)} {result : Except Fault α}
    (h : rolling.run (⟨source, asked⟩ : Observed σ) = (result, ⟨left, noted⟩)) :
    rolling.run source = (result, left) := by
  rw [← run_observed rolling source asked, h]

/-- **Every way in which a roll can go on a list of values.** It fails with a flaw exactly when one
of the checks of its terms fails, then with the flaw of the first one that does, which is reported
in the words of this check, and takes no value. If it runs out of values, the report names the die
that it asked for, and it has taken all values; if it refuses a value, the report names the value
and its die, and it has taken the values up to this one. All others that were taken are faces of
their dice. When it refuses a value or comes to an outcome, and also when a sum overflows, values
behind the list are left untouched and change nothing. There is no other way. -/
theorem Expression.roll_run_replay {expression : Expression} {values left : List UInt32}
    {result : Except Fault Outcome}
    (h : (expression.roll build).run (⟨values⟩ : Replay) = (result, ⟨left⟩)) :
    (∀ flaw, result = .error (.flawed flaw) ↔
      ∃ before check after, checks expression.terms = before ++ check :: after ∧
        (∀ earlier ∈ before, earlier.passed = true) ∧ check.passed = false ∧
        check.flaw = flaw ∧ (Fault.flawed flaw).message = check.report) ∧
    (∀ flaw, result = .error (.flawed flaw) → left = values) ∧
    (∀ shortage, result = .error (.shortage shortage) →
      ∃ (sides : UInt32) (draws : List Draw), shortage = .outOfValues sides ∧ left = [] ∧
        (Fault.shortage shortage).message =
          "replay source ran out of values for a d" ++ sides.toNat.repr ∧
        values = draws.map Draw.value ∧ (∀ draw ∈ draws, draw.IsFace) ∧
        (expression.roll build).run (⟨⟨values⟩, []⟩ : Observed Replay) =
          (result, ⟨⟨left⟩, draws.map Draw.answered ++ [(sides, .error shortage)]⟩)) ∧
    (∀ value sides, result = .error (.outOfRange value sides) →
      ∃ draws : List Draw, values = draws.map Draw.value ++ value :: left ∧
        (Fault.outOfRange value sides).message =
          "random source returned " ++ value.toNat.repr ++ " for a d" ++ sides.toNat.repr ∧
        (∀ draw ∈ draws, draw.IsFace) ∧ ¬ (1 ≤ value ∧ value ≤ sides) ∧
        (expression.roll build).run (⟨⟨values⟩, []⟩ : Observed Replay) =
          (result, ⟨⟨left⟩, draws.map Draw.answered ++ [(sides, .ok value)]⟩)) ∧
    ((∃ outcome, result = .ok outcome) ∨ result = .error .overflow →
      ∃ draws : List Draw, values = draws.map Draw.value ++ left ∧
        (∀ draw ∈ draws, draw.IsFace) ∧
        (expression.roll build).run (⟨⟨values⟩, []⟩ : Observed Replay) =
          (result, ⟨⟨left⟩, draws.map Draw.answered⟩)) ∧
    ((∃ outcome, result = .ok outcome) ∨ result = .error .overflow ∨
        (∃ value sides, result = .error (.outOfRange value sides)) →
      ∀ more, (expression.roll build).run (⟨values ++ more⟩ : Replay) =
        (result, ⟨left ++ more⟩)) := by
  have hreport (flaw : Flaw) :
      (∃ before check after, checks expression.terms = before ++ check :: after ∧
        (∀ earlier ∈ before, earlier.passed = true) ∧ check.passed = false ∧
        check.flaw = flaw ∧ (Fault.flawed flaw).message = check.report) ↔
      flaw? expression.terms = some flaw := by
    rw [flaw?_eq_firstFailure, firstFailure_eq_some_iff]
    refine exists_congr fun before => exists_congr fun check => exists_congr fun after =>
      and_congr_right fun hchecks => and_congr_right fun _ => and_congr_right fun _ =>
        and_iff_left_of_imp ?_
    rintro rfl
    exact message_flaw_of_mem_checks (hchecks ▸ List.mem_append_right _ List.mem_cons_self)
  simp only [hreport]
  -- A run has one result, so each course settles which of the statements are about it.
  cases hflaw : flaw? expression.terms with
  | some flaw =>
      rw [Expression.roll_of_flaw hflaw, Rolling.run] at h
      cases h
      refine ⟨by simp, fun _ _ => rfl, ?_, ?_, ?_, ?_⟩
      · rintro _ ⟨⟩
      · rintro _ _ ⟨⟩
      · rintro (⟨_, ⟨⟩⟩ | ⟨⟨⟩⟩)
      · rintro (⟨_, ⟨⟩⟩ | ⟨⟨⟩⟩ | ⟨_, _, ⟨⟩⟩)
  | none =>
      cases (Expression.roll_checked hflaw).course values with
      | ends draws left' outcome hfaces hresult hrun =>
          have hobserved := hrun [] []
          rw [List.append_nil, List.append_nil, List.nil_append] at hobserved
          cases h.symm.trans (run_of_run_observed hobserved)
          refine ⟨fun flaw => ⟨fun h => ?_, fun h => absurd h (by simp)⟩, fun flaw h => ?_,
            fun shortage h => ?_, fun value sides h => ?_,
            fun _ => ⟨draws, rfl, hfaces, hobserved⟩,
            fun _ more => run_of_run_observed (hrun [] more)⟩
          · cases hresult _ h
          · cases hresult _ h
          · cases hresult _ h
          · cases hresult _ h
      | refuses draws left' last hfaces hlast hrun =>
          have hobserved := hrun [] []
          rw [List.append_nil, List.append_nil, List.nil_append] at hobserved
          cases h.symm.trans (run_of_run_observed hobserved)
          refine ⟨by simp, ?_, ?_, ?_, ?_, fun _ more => run_of_run_observed (hrun [] more)⟩
          · rintro _ ⟨⟩
          · rintro _ ⟨⟩
          · rintro value sides ⟨⟩
            exact ⟨draws, rfl, rfl, hfaces, hlast, hobserved⟩
          · rintro (⟨_, ⟨⟩⟩ | ⟨⟨⟩⟩)
      | starves draws sides hfaces hrun =>
          have hobserved := hrun []
          rw [List.nil_append] at hobserved
          cases h.symm.trans (run_of_run_observed hobserved)
          refine ⟨by simp, ?_, ?_, ?_, ?_, ?_⟩
          · rintro _ ⟨⟩
          · rintro shortage ⟨⟩
            exact ⟨sides, draws, rfl, rfl, rfl, rfl, hfaces, hobserved⟩
          · rintro _ _ ⟨⟩
          · rintro (⟨_, ⟨⟩⟩ | ⟨⟨⟩⟩)
          · rintro (⟨_, ⟨⟩⟩ | ⟨⟨⟩⟩ | ⟨_, _, ⟨⟩⟩)

/-- A list that runs out while a die explodes, one with a value that is refused in the middle of a
reroll, terms of which three checks fail, and terms with a value in the place of an operator. -/
theorem Expression.roll_run_replay_of_reroll_and_explosion :
    ∃ expression flawed crowded : Expression,
      expression.text = "3d6r2+1d4!" ∧ flawed.text = "4d6kh2dl2r6+" ∧
      crowded.terms = [.constant 1, .constant 2] ∧
      (∃ (fault : Fault) (draws : List Draw),
        expression.roll.run (⟨[2, 5, 1, 6, 3, 4, 4]⟩ : Replay) = (.error fault, ⟨[]⟩) ∧
        fault.message = "replay source ran out of values for a d4" ∧
        [2, 5, 1, 6, 3, 4, 4] = draws.map Draw.value ∧ ∀ draw ∈ draws, draw.IsFace) ∧
      (∃ fault : Fault, fault.message = "random source returned 9 for a d6" ∧
        ∀ more, expression.roll.run (⟨[2, 5, 1, 9, 7] ++ more⟩ : Replay) =
          (.error fault, ⟨[7] ++ more⟩)) ∧
      (∃ fault : Fault, flawed.roll.run (⟨[3]⟩ : Replay) = (.error fault, ⟨[3]⟩) ∧
        fault.message =
          "ill-formed dice group: 'dl2' cannot apply to 4d6kh2dl2r6 with 2 dice kept") ∧
      ∃ fault : Fault, crowded.roll.run (⟨[3]⟩ : Replay) = (.error fault, ⟨[3]⟩) ∧
        fault.message =
          "ill-formed dice expression: unexpected Constant(2) at term 1" := by
  let expression : Expression :=
    ⟨"", [.dice ⟨3, 6, [.reroll 2], by decide⟩, .operator .plus,
      .dice ⟨1, 4, [.explode none], by decide⟩]⟩
  let group : DiceGroup := ⟨4, 6, [.select .keepHighest 2, .select .dropLowest 2, .reroll 6],
    by decide⟩
  let flawed : Expression := ⟨"", [.dice group, .operator .plus]⟩
  let crowded : Expression := ⟨"", [.constant 1, .constant 2]⟩
  have hstarves : expression.roll.run (⟨[2, 5, 1, 6, 3, 4, 4]⟩ : Replay) =
      (.error (.shortage (.outOfValues 4)), ⟨[]⟩) := by decide +kernel
  have hrefuses : expression.roll.run (⟨[2, 5, 1, 9, 7]⟩ : Replay) =
      (.error (.outOfRange 9 6), ⟨[7]⟩) := by decide +kernel
  have hflawed : flawed.roll.run (⟨[3]⟩ : Replay) =
      (.error (.flawed (.inapplicable (.select .dropLowest 2) group 2)), ⟨[3]⟩) := by
    decide +kernel
  have hcrowded : crowded.roll.run (⟨[3]⟩ : Replay) =
      (.error (.flawed (.misplaced (.constant 2) 1)), ⟨[3]⟩) := by
    decide +kernel
  -- A flaw is reported in the words of the checks that find it.
  have hworded {expression : Expression} {flaw : Flaw} {words : String}
      (h : expression.roll.run (⟨[3]⟩ : Replay) = (.error (.flawed flaw), ⟨[3]⟩))
      (hwords : ∀ check ∈ checks expression.terms, check.flaw = flaw → check.report = words) :
      (Fault.flawed flaw).message = words := by
    obtain ⟨before, check, after, hchecks, -, -, hflaw, hmessage⟩ :=
      ((Expression.roll_run_replay h).1 flaw).mp rfl
    have hcheck : check ∈ checks expression.terms :=
      hchecks ▸ List.mem_append_right _ List.mem_cons_self
    exact hmessage.trans (hwords check hcheck hflaw)
  refine ⟨expression, flawed, crowded, by decide +kernel, by decide +kernel, rfl, ?_, ?_, ?_, ?_⟩
  · obtain ⟨sides, draws, hsides, -, hmessage, hvalues, hfaces, -⟩ :=
      (Expression.roll_run_replay hstarves).2.2.1 _ rfl
    cases hsides
    exact ⟨_, draws, hstarves, hmessage, hvalues, hfaces⟩
  · obtain ⟨draws, -, hmessage, -⟩ := (Expression.roll_run_replay hrefuses).2.2.2.1 _ _ rfl
    exact ⟨_, hmessage, (Expression.roll_run_replay hrefuses).2.2.2.2.2 (.inr (.inr ⟨9, 6, rfl⟩))⟩
  · exact ⟨_, hflawed, hworded hflawed (by decide +kernel)⟩
  · exact ⟨_, hcrowded, hworded hcrowded (by decide +kernel)⟩

end Dicebox
