import Mathlib.Data.List.Permutation
import Dicebox.Evaluate
import Dicebox.Proofs.Reading
import Dicebox.Proofs.Spelling
import Dicebox.Proofs.Stages

/-!
# The order of qualifiers

Qualifiers act in two stages, and the order in which generators and selections are written among
each other has no meaning. Three passes go through the qualifiers of a group: the reader, which
counts the kept dice while it reads; the search for a flaw, which counts them again; and the roll.
All three come to the same with the qualifiers in another order, as long as the order within each
stage stays.

For the reader this is shown through the written form of the group. It is read back exactly if the
group has no flaw and is within the limits, so it depends on the order no more than the flaw does.

## Main definitions

* `Reorders` — qualifiers in another order, but not within a stage.

## Main results

* `completesGroup_symbols` — the reader goes through the symbols of qualifiers as the search for a
  flaw goes through the qualifiers.
* `parse_group_text_eq_ok_iff` — when the written form of a group is parsed.
* `DiceGroup.roll_reordered` — groups with reordered qualifiers.
-/

namespace Dicebox

/-- A list holds the same qualifiers as another one, and those of each stage in the same order. -/
structure Reorders (qualifiers reordered : List Qualifier) : Prop where
  perm : reordered.Perm qualifiers
  filter_eq (phase : Phase) :
    reordered.filter (·.phase = phase) = qualifiers.filter (·.phase = phase)

variable {limits : Limits} {group : DiceGroup} {terms : List Term}

/-! ### Reading the written form -/

/-- Whether qualifiers have a flaw depends on nothing of the group but its sides. -/
theorem qualifierFlaw?_eq_none_congr {group group' : DiceGroup} (h : group'.sides = group.sides)
    (kept : Nat) (qualifiers : List Qualifier) :
    group'.qualifierFlaw? kept qualifiers = none ↔
      group.qualifierFlaw? kept qualifiers = none := by
  rw [qualifierFlaw?_eq_none_iff, qualifierFlaw?_eq_none_iff, h]

/-- A qualifier with a number is made of its marker and the number. -/
theorem made_marker {qualifier : Qualifier} {number : UInt32}
    (h : qualifier.number? = some number) : qualifier.marker.made number = qualifier := by
  cases qualifier <;> cases h <;> rfl

/-- A qualifier without a number is made of its marker alone, and accepts any dice. -/
theorem alone?_marker {qualifier : Qualifier} (h : qualifier.number? = none) :
    qualifier.marker.alone? = some qualifier ∧
      ∀ sides kept, qualifier.Accepts sides kept := by
  cases qualifier <;> cases h
  exact ⟨rfl, fun _ _ => trivial⟩

/-- A number does not complete a group. -/
theorem not_completesGroup_integer (group : DiceGroup) {kept n : Nat}
    (hsides : 2 ≤ group.sides.toNat) (hkept : kept < UInt32.size) {all : List Symbol} :
    ¬ Reader.CompletesGroup limits group kept (⟨.integer, n⟩ :: all) terms := by
  rw [Reader.completesGroup_cons group hsides hkept 0]
  exact Reader.not_leads_error

/-- The symbols of a qualifier complete a group exactly when the qualifier accepts its dice and what
is behind them completes the group with the qualifier. -/
theorem completesGroup_symbols {kept : Nat} (hsides : 2 ≤ group.sides.toNat)
    (hkept : kept < UInt32.size) (qualifier : Qualifier) {rest : List Symbol}
    (hrest : ∀ symbol ∈ rest.head?, symbol.kind ≠ .integer) :
    Reader.CompletesGroup limits group kept (qualifier.symbols ++ rest) terms ↔
      qualifier.Accepts group.sides kept ∧
        Reader.CompletesGroup limits (group.qualify qualifier) (qualifier.keptAfter kept) rest
          terms := by
  rw [Qualifier.symbols, List.cons_append, Reader.completesGroup_cons group hsides hkept 0,
    Reader.afterGroup, Marker.ofKind_kind]
  simp only [Reader.leads_ok_nil, Reader.Completes]
  cases hnumber : qualifier.number? with
  | some number =>
      have hmade := made_marker hnumber
      simp only [Option.toList_some, List.map_cons, List.map_nil, List.singleton_append]
      constructor
      · rintro (⟨alone, -, hgroup⟩ | ⟨n, behind, made, hall, hmake, hgroup⟩)
        · exact absurd hgroup (not_completesGroup_integer (group.qualify alone) hsides hkept)
        · obtain ⟨hsymbol, rfl⟩ := List.cons.inj hall
          obtain ⟨number', hword, rfl, haccepts⟩ := (withNumber_eq_ok_iff hkept).mp hmake
          obtain rfl : number' = number :=
            UInt32.toNat_inj.mp (hword.trans (Symbol.mk.inj hsymbol).2.symm)
          rw [hmade] at haccepts hgroup
          exact ⟨haccepts, hgroup⟩
      · rintro ⟨haccepts, hgroup⟩
        refine .inr ⟨_, rest, qualifier, rfl, ?_, hgroup⟩
        exact (withNumber_eq_ok_iff hkept).mpr ⟨number, rfl, hmade, haccepts⟩
  | none =>
      obtain ⟨halone, haccepts⟩ := alone?_marker hnumber
      rw [keptAfter_of_alone halone, and_iff_right (haccepts _ _), Option.toList_none,
        List.map_nil, List.nil_append]
      constructor
      · rintro (⟨alone, halone', hgroup⟩ | ⟨n, behind, made, rfl, -⟩)
        · obtain rfl := Option.some.inj (halone.symm.trans halone')
          exact hgroup
        · exact absurd rfl (hrest _ rfl)
      · exact fun hgroup => .inl ⟨qualifier, halone, hgroup⟩

/-- Qualifiers spell no number first. -/
theorem head?_symbols_ne_integer (qualifiers : List Qualifier) :
    ∀ symbol ∈ (qualifiers.flatMap Qualifier.symbols).head?, symbol.kind ≠ .integer := by
  cases qualifiers with
  | nil => exact nofun
  | cons qualifier qualifiers =>
      intro symbol hsymbol
      obtain rfl := Option.some.inj hsymbol
      intro hinteger
      have hmarker : Marker.ofKind .integer = some qualifier.marker :=
        hinteger ▸ qualifier.marker.ofKind_kind
      cases hmarker

/-- The symbols of qualifiers complete a group exactly when these have no flaw, and then to the
group that has them. -/
theorem completesGroup_flatMap_symbols (group : DiceGroup) {kept : Nat}
    (hsides : 2 ≤ group.sides.toNat) (hkept : kept < UInt32.size) (qualifiers : List Qualifier) :
    Reader.CompletesGroup limits group kept (qualifiers.flatMap Qualifier.symbols) terms ↔
      group.qualifierFlaw? kept qualifiers = none ∧
        terms = [.dice { group with qualifiers := group.qualifiers ++ qualifiers }] := by
  induction qualifiers generalizing group kept with
  | nil =>
      rw [List.flatMap_nil, Reader.completesGroup_nil, List.append_nil]
      exact (and_iff_right rfl).symm
  | cons qualifier qualifiers ih =>
      have hqualify : (group.qualify qualifier).sides = group.sides := rfl
      have hmore := ih (group.qualify qualifier) hsides (keptAfter_lt_size hkept qualifier)
      rw [List.flatMap_cons, completesGroup_symbols hsides hkept qualifier
        (head?_symbols_ne_integer qualifiers), hmore, qualifierFlaw?_cons_eq_none_iff, and_assoc,
        qualifierFlaw?_eq_none_congr hqualify]
      simp only [DiceGroup.qualify, List.append_assoc, List.singleton_append]

/-- The symbols of its qualifiers complete a group exactly when they have no flaw, and then to the
whole group. -/
theorem completesGroup_qualifiers_iff (group : DiceGroup) (hsides : 2 ≤ group.sides.toNat) :
    Reader.CompletesGroup limits ⟨group.count, group.sides, [], group.count_pos⟩ group.count.toNat
        (group.qualifiers.flatMap Qualifier.symbols) terms ↔
      group.qualifierFlaw? group.count.toNat group.qualifiers = none ∧ terms = [.dice group] := by
  let bare : DiceGroup := ⟨group.count, group.sides, [], group.count_pos⟩
  have hbare : bare.sides = group.sides := rfl
  refine (completesGroup_flatMap_symbols bare hsides group.count.toNat_lt _).trans ?_
  exact and_congr_left' (qualifierFlaw?_eq_none_congr hbare _ _)

/-- The written form of a group is parsed exactly when the group has no flaw and is within the
limits, and then to the group. -/
theorem parse_group_text_eq_ok_iff {expression : Expression} :
    parse limits group.text = .ok expression ↔
      expression = ⟨group.text, [.dice group]⟩ ∧ group.flaw? = none ∧
        group.count ≤ limits.maxDice ∧ group.sides ≤ limits.maxSides := by
  obtain ⟨written, terms⟩ := expression
  have hsize : UInt32.size < UInt64.size := by decide
  have hcount : group.count.toNat < UInt64.size := Nat.lt_trans group.count.toNat_lt hsize
  rw [parse_eq_ok_iff, (spells_group group).symbols_eq, DiceGroup.symbols,
    Reader.writes_cons 0, Reader.beginTerm]
  simp only [if_pos hcount, Reader.leads_ok_nil, Reader.Completes]
  constructor
  · rintro ⟨rfl, ⟨value, -, hcontinues⟩ | ⟨count, count_pos, value, _, hword, hmax, hall, symbol,
      behind, sides, rfl, hwrites, hgroup⟩⟩
    · cases hcontinues with
      | chain hop => cases hop
    · obtain ⟨-, hbehind⟩ := List.cons.inj hall
      obtain ⟨rfl, rfl⟩ := List.cons.inj hbehind
      obtain rfl : count = group.count := UInt32.toNat_inj.mp hword
      cases hwrites with
      | number hn htwo hmaxSides =>
          obtain rfl : sides = group.sides := UInt32.toNat_inj.mp hn
          obtain ⟨hflaw, rfl⟩ := (completesGroup_qualifiers_iff group htwo).mp hgroup
          refine ⟨rfl, flaw?_eq_none_iff_qualifierFlaw?.mpr ⟨?_, hflaw⟩, ?_, ?_⟩
          · exact UInt32.le_iff_toNat_le.mpr htwo
          · exact UInt32.le_iff_toNat_le.mpr hmax
          · exact UInt32.le_iff_toNat_le.mpr hmaxSides
  · rintro ⟨heq, hflaw, hmax, hmaxSides⟩
    obtain ⟨rfl, rfl⟩ := Expression.mk.inj heq
    obtain ⟨htwo, hqualifiers⟩ := flaw?_eq_none_iff_qualifierFlaw?.mp hflaw
    have hsides : WritesSides limits ⟨.integer, group.sides.toNat⟩ group.sides :=
      .number rfl (UInt32.le_iff_toNat_le.mp htwo) (UInt32.le_iff_toNat_le.mp hmaxSides)
    refine ⟨rfl, .inr ⟨group.count, group.count_pos, 0, _, rfl, UInt32.le_iff_toNat_le.mp hmax, rfl,
      _, _, group.sides, rfl, hsides, ?_⟩⟩
    exact (completesGroup_qualifiers_iff group (UInt32.le_iff_toNat_le.mp htwo)).mpr
      ⟨hqualifiers, rfl⟩

/-! ### Reordered groups -/

/-- A group with its qualifiers in another order. -/
def DiceGroup.withQualifiers (group : DiceGroup) (qualifiers : List Qualifier) : DiceGroup :=
  { group with qualifiers }

/-- Reordered qualifiers have no flaw if they had none before. -/
theorem flaw?_withQualifiers_eq_none_iff {reordered : List Qualifier}
    (h : Reorders group.qualifiers reordered) :
    (group.withQualifiers reordered).flaw? = none ↔ group.flaw? = none := by
  have hgenerators : generators reordered = generators group.qualifiers := h.filter_eq .generate
  have hselections : selections reordered = selections group.qualifiers := h.filter_eq .filter
  have hqualifiers : group.qualifierFlaw? group.count.toNat reordered = none ↔
      group.qualifierFlaw? group.count.toNat group.qualifiers = none := by
    refine qualifierFlaw?_eq_none_iff_stages.trans (Iff.trans ?_
      qualifierFlaw?_eq_none_iff_stages.symm)
    rw [hgenerators, hselections]
  have hsides : (group.withQualifiers reordered).sides = group.sides := rfl
  rw [flaw?_eq_none_iff_qualifierFlaw?, flaw?_eq_none_iff_qualifierFlaw?, ← hqualifiers]
  exact and_congr_right' (qualifierFlaw?_eq_none_congr hsides _ _)

/-- Reordered qualifiers act on the same dice in the same way. -/
theorem roll_withQualifiers {reordered : List Qualifier}
    (h : Reorders group.qualifiers reordered) :
    (group.withQualifiers reordered).roll = group.roll := by
  rw [DiceGroup.roll, DiceGroup.roll, DiceGroup.withQualifiers, h.filter_eq, h.filter_eq]

/-- Reordered qualifiers change nothing of how a group is rolled and added up. -/
theorem rollSummed_withQualifiers {reordered : List Qualifier} {build : Build}
    (h : Reorders group.qualifiers reordered) :
    (group.withQualifiers reordered).rollSummed build = group.rollSummed build := by
  rw [DiceGroup.rollSummed, DiceGroup.rollSummed, roll_withQualifiers h]

/-- A single group without a flaw is rolled as the group. -/
theorem roll_singleton_dice (h : group.flaw? = none) (written : String) (build : Build) :
    (⟨written, [.dice group]⟩ : Expression).roll build =
      group.rollSummed build >>= fun pool =>
        .done (.ofContributions written [.dice .plus pool]) := by
  have hflaw : flaw? [.dice group] = none := flaw?_eq_none_iff.mpr (.value rfl h)
  rw [Expression.roll]
  simp only [hflaw]
  rw [contributions, contributions, Rolling.bind_assoc]
  rfl

/-- **The order of qualifiers across the stages has no meaning.** A group whose qualifiers are
reordered has a flaw only if it had one before, and within any limits its written form is parsed
exactly if it was before. Without a flaw, the two are rolled in the same way: from any source they
come to the same outcome, or fail with the same fault at the same draw, and leave the source in the
same state. -/
theorem DiceGroup.roll_reordered (group : DiceGroup) {reordered : List Qualifier}
    (h : Reorders group.qualifiers reordered) :
    ((group.withQualifiers reordered).flaw? = none ↔ group.flaw? = none) ∧
    (∀ limits : Limits,
      (∃ expression, parse limits (group.withQualifiers reordered).text = .ok expression) ↔
        ∃ expression, parse limits group.text = .ok expression) ∧
    (group.flaw? = none → ∀ (written : String) {σ : Type} [DieSource σ] (source : σ),
      (group.withQualifiers reordered).roll.run source = group.roll.run source ∧
      ∀ build : Build,
        ((⟨written, [.dice (group.withQualifiers reordered)]⟩ : Expression).roll build).run source =
          ((⟨written, [.dice group]⟩ : Expression).roll build).run source) := by
  have hflaw := flaw?_withQualifiers_eq_none_iff h
  refine ⟨hflaw, fun limits => ?_, fun hnone written σ _ source => ⟨?_, fun build => ?_⟩⟩
  · simp only [parse_group_text_eq_ok_iff, exists_eq_left, hflaw]
    rfl
  · rw [roll_withQualifiers h]
  · rw [roll_singleton_dice (hflaw.mpr hnone), roll_singleton_dice hnone,
      rollSummed_withQualifiers h]

/-- Qualifiers of which a reroll and an explosion are written behind two selections instead of
before and between them, rolled to the end and to a value that is no face. -/
theorem DiceGroup.roll_reordered_of_selections_first :
    ∃ group reordered : DiceGroup,
      group.text = "4d6r1dl1!kh2" ∧ reordered.text = "4d6dl1kh2r1!" ∧
      (∃ expression, parse {} "4d6dl1kh2r1!" = .ok expression) ∧
      (reordered.roll.run (⟨[6, 1, 3, 4, 2, 5]⟩ : Replay)).1 = .ok ⟨6, [⟨6, 6, true⟩,
        ⟨6, 1, false⟩, ⟨6, 3, false⟩, ⟨6, 4, false⟩, ⟨6, 2, false⟩, ⟨6, 5, true⟩]⟩ ∧
      reordered.roll.run (⟨[6, 1, 3, 4, 2, 9, 8]⟩ : Replay) =
        (.error (.outOfRange 9 6), ⟨[8]⟩) := by
  let group : DiceGroup := ⟨4, 6, [.reroll 1, .select .dropLowest 1, .explode none,
    .select .keepHighest 2], by decide⟩
  let reordered : List Qualifier :=
    [.select .dropLowest 1, .select .keepHighest 2, .reroll 1, .explode none]
  have hreorders : Reorders group.qualifiers reordered := by
    constructor
    case perm => decide
    case filter_eq => intro phase; cases phase <;> rfl
  have hflaw : group.flaw? = none := by decide
  have htext : (group.withQualifiers reordered).text = "4d6dl1kh2r1!" := by decide +kernel
  have hgroup : parse {} group.text = .ok ⟨group.text, [.dice group]⟩ := by decide +kernel
  obtain ⟨-, hparse, hroll⟩ := DiceGroup.roll_reordered group hreorders
  refine ⟨group, group.withQualifiers reordered, by decide +kernel, htext, ?_, ?_, ?_⟩
  · rw [← htext]
    exact (hparse {}).mpr ⟨_, hgroup⟩
  · rw [(hroll hflaw "" _).1]
    cbv
  · rw [(hroll hflaw "" _).1]
    decide +kernel

end Dicebox
