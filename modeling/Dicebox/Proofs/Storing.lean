import Mathlib.Data.List.Induction
import Dicebox.Evaluate
import Dicebox.Stored
import Dicebox.Proofs.Accounts
import Dicebox.Proofs.JsonText
import Dicebox.Proofs.Reading

/-!
# Loading what is stored

Outcomes, roll records and limits are stored as the texts of their JSON forms. Each form is whole,
so its text is read back; and each field is found in it by its key and read back by its type, for
every text and every number that the field can hold.

A table of modifiers is the one form whose reading is not field by field. Its members are entered
one by one into an empty table, and since they are written in the order of their keys, each one is
entered behind all others.

## Main results

* `Json.fields?_eq_some` — a record is found in its form, field by field.
* `Modifiers.ofEntries_entries` — a table is made again of its entries.
* `Outcome.ofJson?_toJson`, `RollRecord.ofJson?_toJson`, `Limits.ofJson?_toJson` — forms are read
  back.
* `ofText?_stored` — texts are read back, and a loaded outcome rolls its dice again.
-/

namespace Dicebox

namespace Json

/-! ### Plain values -/

/-- If every value is mapped to something, a list is mapped to the list of what they are mapped
to. -/
theorem mapM_eq_some {α β : Type} {f : α → Option β} {values : List α} {results : List β}
    (h : values.map f = results.map some) : values.mapM f = some results := by
  have hmap : (values.map f).mapM id = values.mapM f := List.mapM_map
  have hsome : (results.map some).mapM id = results.mapM some := List.mapM_map
  have hpure : results.mapM some = some (results.map id) := List.mapM_pure
  rw [← hmap, h, hsome, hpure, List.map_id]

/-- A number is read back. -/
@[simp] theorem word32?_jsonOfWord (n : UInt32) : (jsonOfWord n).word32? = some n := by
  have hsize := UInt32.toNat_lt_size n
  rw [jsonOfWord, word32?, if_pos (by omega), Int.toNat_natCast, UInt32.ofNat_toNat]

/-- An amount is read back. -/
@[simp] theorem amount?_toInt (a : Amount) : (int a.toInt).amount? = some a := by
  rw [amount?, if_pos ⟨a.minValue_le_toInt, a.toInt_le⟩, Int64.ofInt_toInt]

/-- A text is read back. -/
@[simp] theorem string?_str (s : String) : (str s).string? = some s :=
  rfl

/-- A truth value is read back. -/
@[simp] theorem bool?_bool (b : Bool) : (bool b).bool? = some b :=
  rfl

/-- A list is read back if its items are. -/
theorem list?_arr_map {α : Type} {item? : Json → Option α} {toJson : α → Json}
    (h : ∀ value, item? (toJson value) = some value) (values : List α) :
    list? item? (arr (values.map toJson)) = some values := by
  refine mapM_eq_some ?_
  rw [List.map_map]
  exact List.map_congr_left fun value _ => h value

/-! ### Records -/

/-- A member is found by its key if no other member has it. -/
theorem member?_eq_some {members : List (String × Json)} (h : (members.map Prod.fst).Nodup)
    {member : String × Json} (hmember : member ∈ members) :
    member? members member.1 = some member.2 := by
  obtain ⟨front, behind, rfl⟩ := List.append_of_mem hmember
  rw [List.map_append, List.map_cons, List.nodup_append, List.nodup_cons] at h
  rw [member?, List.lookup_eq_some_iff]
  refine ⟨behind.reverse, front.reverse, by simp, fun other hother => ?_⟩
  have hkey : member.1 ≠ other.1 := by
    intro heq
    refine h.2.1.1 ?_
    rw [heq]
    exact List.mem_map_of_mem (List.mem_reverse.mp hother)
  simpa using hkey

/-- Values are found under their keys, in order. -/
theorem map_member?_zip {keys : List String} {values : List Json} (hkeys : keys.Nodup)
    (hlength : keys.length = values.length) :
    keys.map (member? (keys.zip values)) = values.map some := by
  have hfst : (keys.zip values).map Prod.fst = keys := List.map_fst_zip (Nat.le_of_eq hlength)
  have hsnd : (keys.zip values).map Prod.snd = values :=
    List.map_snd_zip (Nat.le_of_eq hlength.symm)
  have hnodup : ((keys.zip values).map Prod.fst).Nodup := hfst.symm ▸ hkeys
  calc keys.map (member? (keys.zip values))
      = ((keys.zip values).map Prod.fst).map (member? (keys.zip values)) := by rw [hfst]
    _ = (keys.zip values).map fun member => member? (keys.zip values) member.1 := List.map_map
    _ = (keys.zip values).map fun member => some member.2 :=
        List.map_congr_left fun member hmember => member?_eq_some hnodup hmember
    _ = ((keys.zip values).map Prod.snd).map some := List.map_map.symm
    _ = values.map some := by rw [hsnd]

/-- The fields of a record are found in its form. -/
theorem fields?_eq_some {keys : List String} {values : List Json} {json : Json}
    (hkeys : keys.Nodup) (hlength : keys.length = values.length)
    (h : json = obj (keys.zip values)) : json.fields? keys = some values := by
  rw [h, fields?]
  exact mapM_eq_some (map_member?_zip hkeys hlength)

/-- The fields of a record are found in its form, whatever their default values. -/
theorem fieldsOr?_eq_some {defaults : List (String × Json)} {values : List Json} {json : Json}
    (hkeys : (defaults.map Prod.fst).Nodup) (hlength : defaults.length = values.length)
    (h : json = obj ((defaults.map Prod.fst).zip values)) :
    json.fieldsOr? defaults = some values := by
  have hfound := map_member?_zip hkeys (by rwa [List.length_map])
  rw [h, fieldsOr?]
  refine congrArg some (List.ext_getElem (by rwa [List.length_map]) fun i hi hvalue => ?_)
  have hdefault : i < defaults.length := by omega
  have hfield : member? ((defaults.map Prod.fst).zip values) defaults[i].1 = some values[i] := by
    have hplace := congrArg (·[i]?) hfound
    simpa [hvalue, hdefault] using hplace
  rw [List.getElem_map, hfield, Option.getD_some]

end Json

open Json

/-! ### Dice -/

/-- The form of a number is whole. -/
theorem whole_jsonOfWord (n : UInt32) : Whole (jsonOfWord n) :=
  .int _

/-- The form of a die is whole. -/
theorem Die.whole_toJson (die : Die) : Whole die.toJson := by
  refine .obj ?_
  simp only [List.forall_mem_cons]
  exact ⟨.int _, .int _, .bool _, nofun⟩

/-- A die is read back. -/
theorem Die.ofJson?_toJson (die : Die) : ofJson? die.toJson = some die := by
  have hkeys : ["sides", "value", "kept"].Nodup := by decide
  have hfields : die.toJson.fields? ["sides", "value", "kept"] =
      some [jsonOfWord die.sides, jsonOfWord die.value, .bool die.kept] :=
    fields?_eq_some hkeys rfl rfl
  rw [ofJson?, hfields, Option.bind_eq_bind, Option.bind_some]
  simp only [word32?_jsonOfWord, bool?_bool, Option.bind_eq_bind, Option.bind_some, Option.pure_def]

/-! ### Modifiers -/

namespace Modifiers

/-- A key that comes after all others is entered behind them. -/
theorem insertEntry_of_forall_lt {key : String} (value : Amount)
    {entries : List (String × Amount)} (h : ∀ entry ∈ entries, entry.1 < key) :
    insertEntry key value entries = entries ++ [(key, value)] := by
  induction entries with
  | nil => rfl
  | cons first more ih =>
      obtain ⟨hfirst, hmore⟩ := List.forall_mem_cons.mp h
      rw [insertEntry, if_neg (String.lt_asymm hfirst), if_pos hfirst, ih hmore]
      rfl

/-- Entries with ascending keys make the table of them. -/
theorem entries_ofEntries {entries : List (String × Amount)}
    (h : entries.Pairwise fun a b => a.1 < b.1) : (ofEntries entries).entries = entries := by
  induction entries using List.reverseRecOn with
  | nil => rfl
  | append_singleton entries entry ih =>
      obtain ⟨hentries, -, hlast⟩ := List.pairwise_append.mp h
      have hinsert : (ofEntries (entries ++ [entry])).entries =
          insertEntry entry.1 entry.2 (ofEntries entries).entries := by
        rw [ofEntries, List.foldl_concat]
        rfl
      rw [hinsert, ih hentries]
      exact insertEntry_of_forall_lt entry.2 fun other hother =>
        hlast other hother entry List.mem_cons_self

/-- A table is made again of its entries. -/
theorem ofEntries_entries (modifiers : Modifiers) : ofEntries modifiers.entries = modifiers := by
  obtain ⟨entries, ascending⟩ := modifiers
  rw [mk.injEq]
  exact entries_ofEntries ascending

/-- The form of a table is whole. -/
theorem whole_toJson (modifiers : Modifiers) : Whole modifiers.toJson := by
  refine .obj fun member hmember => ?_
  obtain ⟨entry, -, rfl⟩ := List.mem_map.mp hmember
  exact .int _

/-- A table is read back. -/
theorem ofJson?_toJson (modifiers : Modifiers) : ofJson? modifiers.toJson = some modifiers := by
  have hentries : (modifiers.entries.map fun entry => (entry.1, Json.int entry.2.toInt)).mapM
      (fun member : String × Json => member.2.amount?.map (member.1, ·)) =
        some modifiers.entries := by
    refine mapM_eq_some ?_
    rw [List.map_map]
    refine List.map_congr_left fun entry _ => ?_
    rw [Function.comp_apply, amount?_toInt]
    rfl
  rw [toJson, ofJson?, hentries, Option.map_some, ofEntries_entries]

end Modifiers

/-! ### Outcomes, records and limits -/

/-- The form of a list of numbers is whole. -/
theorem whole_arr_map {α : Type} {toJson : α → Json} (h : ∀ value, Whole (toJson value))
    (values : List α) : Whole (.arr (values.map toJson)) := by
  refine .arr fun item hitem => ?_
  obtain ⟨value, -, rfl⟩ := List.mem_map.mp hitem
  exact h value

/-- The form of an outcome is whole. -/
theorem Outcome.whole_toJson (outcome : Outcome) : Whole outcome.toJson := by
  refine .obj ?_
  simp only [List.forall_mem_cons]
  exact ⟨.str _, whole_arr_map whole_jsonOfWord _, outcome.modifiers.whole_toJson, .int _, .str _,
    whole_arr_map Die.whole_toJson _, nofun⟩

/-- An outcome is read back. -/
theorem Outcome.ofJson?_toJson (outcome : Outcome) : ofJson? outcome.toJson = some outcome := by
  have hkeys : ["notation", "rolls", "modifiers", "total", "output", "dice"].Nodup := by decide
  have hfields : outcome.toJson.fields?
      ["notation", "rolls", "modifiers", "total", "output", "dice"] =
        some [.str outcome.written, .arr (outcome.rolls.map jsonOfWord), outcome.modifiers.toJson,
          .int outcome.total.toInt, .str outcome.output, .arr (outcome.dice.map Die.toJson)] :=
    fields?_eq_some hkeys rfl rfl
  simp only [ofJson?, hfields, string?_str, list?_arr_map word32?_jsonOfWord,
    list?_arr_map Die.ofJson?_toJson, Modifiers.ofJson?_toJson, amount?_toInt,
    Option.bind_eq_bind, Option.bind_some, Option.pure_def]

/-- The form of a record is whole. -/
theorem RollRecord.whole_toJson (record : RollRecord) : Whole record.toJson := by
  refine .obj ?_
  simp only [List.forall_mem_cons]
  exact ⟨.str _, whole_arr_map whole_jsonOfWord _, record.modifiers.whole_toJson, .int _, nofun⟩

/-- A record is read back. -/
theorem RollRecord.ofJson?_toJson (record : RollRecord) :
    ofJson? record.toJson = some record := by
  have hkeys : ["dice_notation", "individual_rolls", "modifiers", "total"].Nodup := by decide
  have hfields : record.toJson.fields?
      ["dice_notation", "individual_rolls", "modifiers", "total"] =
        some [.str record.written, .arr (record.rolls.map jsonOfWord), record.modifiers.toJson,
          .int record.total.toInt] :=
    fields?_eq_some hkeys rfl rfl
  simp only [ofJson?, hfields, string?_str, list?_arr_map word32?_jsonOfWord,
    Modifiers.ofJson?_toJson, amount?_toInt, Option.bind_eq_bind, Option.bind_some,
    Option.pure_def]

/-- The form of limits is whole. -/
theorem Limits.whole_toJson (limits : Limits) : Whole limits.toJson := by
  refine .obj ?_
  simp only [List.forall_mem_cons]
  exact ⟨.int _, .int _, nofun⟩

/-- Limits are read back. -/
theorem Limits.ofJson?_toJson (limits : Limits) : ofJson? limits.toJson = some limits := by
  have hkeys : ["max_dice", "max_sides"].Nodup := by decide
  have hfields (maxDice maxSides : Json) :
      limits.toJson.fieldsOr? [("max_dice", maxDice), ("max_sides", maxSides)] =
        some [jsonOfWord limits.maxDice, jsonOfWord limits.maxSides] :=
    fieldsOr?_eq_some hkeys rfl rfl
  rw [ofJson?, hfields, Option.bind_eq_bind, Option.bind_some]
  simp only [word32?_jsonOfWord, Option.bind_eq_bind, Option.bind_some, Option.pure_def]

/-! ### Rolling a loaded outcome again -/

variable {build : Build}

/-- An outcome holds the notation of its expression, and its own dice lead to it again. -/
theorem Expression.run_replay_of_run {σ : Type} [DieSource σ] {expression : Expression}
    {source left : σ} {outcome : Outcome}
    (h : (expression.roll build).run source = (.ok outcome, left)) :
    outcome.written = expression.written ∧
      (expression.roll build).run outcome.replay = (.ok outcome, ⟨[]⟩) := by
  obtain ⟨draws, hyields, -⟩ := Rolling.run_eq_ok_iff.mp h
  obtain rfl : outcome.dice.map Die.draw = draws := Expression.map_draw_roll hyields
  have hanswers := Replay.answers (outcome.dice.map Die.draw) []
  rw [List.map_map, List.append_nil] at hanswers
  obtain ⟨-, rolled, -, houtcome⟩ := Expression.yields_roll_iff.mp hyields
  exact ⟨houtcome ▸ rfl, Rolling.run_eq_ok_iff.mpr ⟨_, hyields, hanswers⟩⟩

/-- Notation is rolled as the expression that it is parsed to. -/
theorem rollNotation_eq_ok_iff {limits : Limits} {notated : String} {rolling : Rolling Outcome} :
    rollNotation limits notated build = .ok rolling ↔
      ∃ expression, parse limits notated = .ok expression ∧ expression.roll build = rolling := by
  rw [rollNotation]
  cases parse limits notated with
  | error rejection => exact iff_of_false nofun nofun
  | ok expression => simp [Except.map]

/-- **What is stored can be loaded.** Every outcome, every roll record and all limits are read back
from the texts of their forms. An outcome that was rolled from notation and is loaded again holds
all that is needed to roll it once more: its own notation is parsed within the same limits, and its
own dice, which are used up by this, come to the same outcome. -/
theorem ofText?_stored :
    (∀ outcome : Outcome,
      (ofText? outcome.toJson.text).bind Outcome.ofJson? = some outcome) ∧
    (∀ record : RollRecord,
      (ofText? record.toJson.text).bind RollRecord.ofJson? = some record) ∧
    (∀ limits : Limits,
      (ofText? limits.toJson.text).bind Limits.ofJson? = some limits) ∧
    ∀ {build : Build} {σ : Type} [DieSource σ] (source left : σ) (limits : Limits)
      (notated : String) (rolling : Rolling Outcome) (outcome : Outcome),
      rollNotation limits notated build = .ok rolling → rolling.run source = (.ok outcome, left) →
      ∃ loaded again, (ofText? outcome.toJson.text).bind Outcome.ofJson? = some loaded ∧
        rollNotation limits loaded.written build = .ok again ∧
        again.run loaded.replay = (.ok outcome, ⟨[]⟩) := by
  have houtcome (outcome : Outcome) :
      (ofText? outcome.toJson.text).bind Outcome.ofJson? = some outcome := by
    rw [ofText?_text outcome.whole_toJson, Option.bind_some, outcome.ofJson?_toJson]
  refine ⟨houtcome, fun record => ?_, fun limits => ?_, ?_⟩
  · rw [ofText?_text record.whole_toJson, Option.bind_some, record.ofJson?_toJson]
  · rw [ofText?_text limits.whole_toJson, Option.bind_some, limits.ofJson?_toJson]
  · intro build σ _ source left limits notated rolling outcome hnotated hrun
    obtain ⟨expression, hparse, rfl⟩ := rollNotation_eq_ok_iff.mp hnotated
    obtain ⟨hwritten, hreplay⟩ := Expression.run_replay_of_run hrun
    have hsame : outcome.written = notated := hwritten.trans (parse_eq_ok_iff.mp hparse).1
    exact ⟨outcome, expression.roll build, houtcome outcome, hsame ▸ hnotated, hreplay⟩

/-- A notation with a tabulator, rolled, stored, loaded and rolled again. One die is rerolled. -/
theorem ofText?_stored_of_tabulated :
    ∃ (rolling : Rolling Outcome) (outcome loaded : Outcome) (again : Rolling Outcome),
      rollNotation {} "4d6r1\t+ 1d8 - 2" = .ok rolling ∧
      rolling.run (⟨[3, 1, 6, 4, 2, 8, 5]⟩ : Replay) = (.ok outcome, ⟨[5]⟩) ∧
      (ofText? outcome.toJson.text).bind Outcome.ofJson? = some loaded ∧
      rollNotation {} loaded.written = .ok again ∧
      again.run loaded.replay = (.ok outcome, ⟨[]⟩) := by
  let expression : Expression :=
    ⟨"4d6r1\t+ 1d8 - 2", [.dice ⟨4, 6, [.reroll 1], by decide⟩, .operator .plus,
      .dice ⟨1, 8, [], by decide⟩, .operator .minus, .constant 2]⟩
  let outcome : Outcome :=
    { written := "4d6r1\t+ 1d8 - 2", rolls := [3, 6, 4, 2, 8], modifiers := .ofConstants [-2]
      total := 21, output := "4d6r1\t+ 1d8 - 2: [3, 6, 4, 2, 8] (-2) = 21"
      dice := [⟨6, 3, true⟩, ⟨6, 1, false⟩, ⟨6, 6, true⟩, ⟨6, 4, true⟩, ⟨6, 2, true⟩,
        ⟨8, 8, true⟩] }
  have hparse : parse {} "4d6r1\t+ 1d8 - 2" = .ok expression := by decide +kernel
  have hnotated : rollNotation {} "4d6r1\t+ 1d8 - 2" = .ok expression.roll :=
    rollNotation_eq_ok_iff.mpr ⟨expression, hparse, rfl⟩
  have hrun : expression.roll.run (⟨[3, 1, 6, 4, 2, 8, 5]⟩ : Replay) = (.ok outcome, ⟨[5]⟩) := by
    decide +kernel
  obtain ⟨loaded, again, hloaded, hagain, hreplay⟩ :=
    ofText?_stored.2.2.2 _ _ {} _ expression.roll outcome hnotated hrun
  exact ⟨expression.roll, outcome, loaded, again, hnotated, hrun, hloaded, hagain, hreplay⟩

end Dicebox
