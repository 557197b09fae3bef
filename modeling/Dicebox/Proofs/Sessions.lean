import Dicebox.Console
import Dicebox.Proofs.OneLine
import Dicebox.Proofs.WellFormed

/-!
# Sessions at the console

The console reads lines until its input ends. This module says what a whole session looks like when
no line asks for dice: each is blank, or rejected, or notation without dice. Such a line has an
answer that depends on its text and on nothing else, and it leaves the source of dice as it was. So
a session is its answers in a row, and none of them changes another one.

An answer is one line, because a line of input has no line feed and nothing that is made of it gets
one. It is given here as it reads: the output of the roll, or the four members of its record.

A session is played on a terminal in turns. On paper, where the lines of the input are known, this
comes to what `Console.converse` says of them.

## Main definitions

* `Console.DiceFree` — a text asks for no dice.
* `Console.Answers` — the answer to a text that asks for no dice.
* `Console.Script`, `Console.play` — a terminal on paper, and a session that is played in turns.

## Main results

* `exists_rollNotation_eq_done` — notation without dice is rolled without a source.
* `Console.Answers.reply_eq_done` — a line is answered with the answer to its text.
* `Console.Answers.oneLine` — an answer takes one line at most.
* `Console.converse_append` — what lines without dice leave of a session.
* `Console.converse_of_diceFree` — what a session without dice looks like.
* `Console.play_eq_converse` — a session that is played in turns.
-/

namespace Dicebox

/-! ### Rolls without dice -/

/-- Terms without dice contribute without asking for a die. -/
theorem exists_contributions_eq_done {terms : List Term} (h : ∀ group, .dice group ∉ terms)
    (build : Build) (op : Operator) : ∃ rolled, contributions build op terms = .done rolled := by
  induction terms generalizing op with
  | nil => exact ⟨[], rfl⟩
  | cons term terms ih =>
      have hmore : ∀ group, .dice group ∉ terms :=
        fun group hmem => h group (List.mem_cons_of_mem _ hmem)
      cases term with
      | operator op' => exact ih hmore op'
      | constant value =>
          obtain ⟨rolled, hrolled⟩ := ih hmore op
          refine ⟨.constant op value :: rolled, ?_⟩
          rw [contributions, hrolled]
          rfl
      | dice group => exact absurd List.mem_cons_self (h group)

/-- Accepted notation without dice is rolled without asking for a die. -/
theorem exists_rollNotation_eq_done {limits : Limits} {text : String} {expression : Expression}
    (hparse : parse limits text = .ok expression) (h : ∀ group, .dice group ∉ expression.terms) :
    ∃ outcome, rollNotation limits text = .ok (.done outcome) := by
  have hflaw : flaw? expression.terms = none :=
    flaw?_eq_none_iff.mpr (parse_eq_ok_iff.mp hparse).2.wellFormed
  obtain ⟨rolled, hrolled⟩ := exists_contributions_eq_done h .debug .plus
  refine ⟨.ofContributions expression.written rolled,
    rollNotation_eq_ok_iff.mpr ⟨expression, hparse, ?_⟩⟩
  rw [Expression.roll, hflaw]
  simp only [hrolled]
  rfl

/-- Notation is rejected as its parser rejects it. -/
theorem rollNotation_of_parse_eq_error {limits : Limits} {text : String} {rejection : Rejection}
    (h : parse limits text = .error rejection) : rollNotation limits text = .error rejection := by
  rw [rollNotation, h]
  rfl

/-- Notation that is rolled without asking for a die has an outcome without values. -/
theorem written_eq_and_rolls_eq_nil {limits : Limits} {text : String} {outcome : Outcome}
    (h : rollNotation limits text = .ok (.done outcome)) :
    outcome.written = text ∧ outcome.rolls = [] := by
  have hrun : (Rolling.done outcome).run (⟨[]⟩ : Replay) = (.ok outcome, ⟨[]⟩) := rfl
  have hwritten := (legible_of_run h hrun).1
  obtain ⟨expression, -, hroll⟩ := rollNotation_eq_ok_iff.mp h
  have hyields : (Rolling.done outcome).Yields [] outcome := .done
  rw [← hroll] at hrun hyields
  have hdice := Expression.map_draw_roll hyields
  obtain ⟨-, _, -, -, hrolls, -⟩ := Expression.roll_accounts hrun
  rw [List.map_eq_nil_iff.mp hdice] at hrolls
  exact ⟨hwritten, hrolls⟩

/-- A text without a character is not accepted. -/
theorem rollNotation_empty_ne_ok (rolling : Rolling Outcome) : rollNotation {} "" ≠ .ok rolling :=
  nofun

namespace Console

/-! ### Answers -/

/-- The text of a line, without the blank space around it. -/
def trimmed (line : List Char) : String :=
  String.ofList (Text.strip line)

/-- A text asks for no dice: it is blank, or rejected, or notation without dice. -/
inductive DiceFree (text : String) : Prop
  | blank : text = "" → DiceFree text
  | rejected {rejection : Rejection} : parse {} text = .error rejection → DiceFree text
  | constants {expression : Expression} :
      parse {} text = .ok expression → (∀ group, .dice group ∉ expression.terms) → DiceFree text

/-- The record of a roll without dice: the notation as it is written, no values, the constants with
their signs under their keys, and the total. -/
def diceFreeRecord (text : String) (constants : Modifiers) (total : Amount) : Json :=
  .obj [("dice_notation", .str text), ("individual_rolls", .arr []),
    ("modifiers", .obj (constants.entries.map fun entry => (entry.1, .int entry.2.toInt))),
    ("total", .int total.toInt)]

/-- The answer to a text that asks for no dice: none if it is blank, a complaint if it is rejected,
and otherwise the line that shows its roll, or the text of its record. -/
inductive Answers (json : Bool) (text : String) : Reply → Prop
  | silence : text = "" → Answers json text .silence
  | complaint {rejection : Rejection} : text ≠ "" → parse {} text = .error rejection →
      Answers json text (.complaint ("Error: " ++ rejection.message))
  | line {outcome : Outcome} : json = false → rollNotation {} text = .ok (.done outcome) →
      Answers json text (.answer outcome.output)
  | record {outcome : Outcome} : json = true → rollNotation {} text = .ok (.done outcome) →
      Answers json text (.answer (diceFreeRecord text outcome.modifiers outcome.total).text)

/-- An answer takes one line at most, and a complaint is printable. -/
def Reply.OneLine : Reply → Prop
  | silence => True
  | answer text => Dicebox.OneLine text
  | complaint text => Printable text

variable {json : Bool} {text : String} {reply reply' : Reply} {line : List Char}

/-- What is recorded of a roll without dice. -/
theorem toJson_record_eq {outcome : Outcome} (h : rollNotation {} text = .ok (.done outcome)) :
    outcome.record.toJson = diceFreeRecord text outcome.modifiers outcome.total := by
  obtain ⟨hwritten, hrolls⟩ := written_eq_and_rolls_eq_nil h
  rw [RollRecord.toJson, Outcome.record, hwritten, hrolls]
  rfl

/-- A text that asks for no dice has an answer. -/
theorem DiceFree.exists_answers (h : DiceFree text) (json : Bool) :
    ∃ reply, Answers json text reply := by
  cases h with
  | blank htext => exact ⟨_, .silence htext⟩
  | rejected hparse =>
      by_cases htext : text = ""
      · exact ⟨_, .silence htext⟩
      · exact ⟨_, .complaint htext hparse⟩
  | constants hparse hdice =>
      obtain ⟨outcome, hroll⟩ := exists_rollNotation_eq_done hparse hdice
      cases json with
      | false => exact ⟨_, .line rfl hroll⟩
      | true => exact ⟨_, .record rfl hroll⟩

/-- The answer to the text of a line. -/
def replyTo (json : Bool) (text : String) : Rolling Reply :=
  if text = "" then .done .silence
  else
    match rollNotation {} text with
    | .ok rolling => do return .answer (shown json (← rolling))
    | .error rejection => .done (.complaint ("Error: " ++ rejection.message))

/-- A line is answered as its text. -/
theorem reply_eq_replyTo (json : Bool) (line : List Char) :
    Console.reply json line = replyTo json (trimmed line) := by
  have hempty : (Text.strip line).isEmpty ↔ trimmed line = "" := by
    rw [List.isEmpty_iff, trimmed, String.ofList_eq_empty_iff]
  rw [Console.reply, replyTo]
  simp only [hempty]
  rfl

/-- A roll without dice is shown without a source. -/
theorem replyTo_of_done {outcome : Outcome} (h : rollNotation {} text = .ok (.done outcome)) :
    replyTo json text = .done (.answer (shown json outcome)) := by
  have hne : text ≠ "" := fun htext => absurd (htext ▸ h) (rollNotation_empty_ne_ok _)
  rw [replyTo, if_neg hne, h]
  rfl

/-- The answer to a text is given whatever the source. -/
theorem Answers.replyTo_eq_done (h : Answers json text reply) :
    replyTo json text = .done reply := by
  cases h with
  | silence htext => exact if_pos htext
  | complaint hne hparse => rw [replyTo, if_neg hne, rollNotation_of_parse_eq_error hparse]
  | line hjson hroll =>
      subst hjson
      exact replyTo_of_done hroll
  | record hjson hroll =>
      subst hjson
      rw [replyTo_of_done hroll, ← toJson_record_eq hroll]
      rfl

/-- A text has one answer at most. -/
theorem Answers.unique (h : Answers json text reply) (h' : Answers json text reply') :
    reply = reply' :=
  Rolling.done.inj (h.replyTo_eq_done.symm.trans h'.replyTo_eq_done)

/-- A line is answered with the answer to its text, whatever the source. -/
theorem Answers.reply_eq_done (h : Answers json (trimmed line) reply) :
    Console.reply json line = .done reply :=
  (reply_eq_replyTo json line).trans h.replyTo_eq_done

/-- The answer to a text on one line takes one line at most. -/
theorem Answers.oneLine (h : Answers json text reply) (htext : OneLine text) : reply.OneLine := by
  cases h with
  | silence => trivial
  | complaint _ hparse =>
      rw [Reply.OneLine, printable_append_iff]
      exact ⟨by decide +kernel, printable_message_of_parse hparse⟩
  | @line outcome _ hroll =>
      have hrun : (Rolling.done outcome).run (⟨[]⟩ : Replay) = (.ok outcome, ⟨[]⟩) := rfl
      obtain ⟨hwritten, -, hlegible⟩ := legible_of_run hroll hrun
      exact hlegible.oneLine_output (hwritten ▸ htext)
  | @record outcome _ hroll =>
      rw [← toJson_record_eq hroll]
      exact outcome.record.whole_toJson.oneLine_text

/-- The text of a line of input stays on one line. -/
theorem oneLine_trimmed {input : List Char} (h : line ∈ Text.lines input) :
    OneLine (trimmed line) := by
  rw [OneLine, trimmed, String.toList_ofList]
  exact fun hmem => Text.newline_notMem_of_mem_lines h (Text.strip_subset line hmem)

/-! ### Sessions -/

/-- Lines that ask for no dice are answered one by one, and leave the rest of the session as it is
without them. Induction on these lines: each leaves the source as it finds it. -/
theorem converse_append {σ : Type} [DieSource σ] {answer : String → Reply}
    {lines : List (List Char)}
    (h : ∀ line ∈ lines, Answers json (trimmed line) (answer (trimmed line)))
    (rest : List (List Char)) (source : σ) :
    converse json (lines ++ rest) source =
      { output := String.join (lines.map fun line => prompt ++ (answer (trimmed line)).printed) ++
          (converse json rest source).output
        errors := (lines.filterMap fun line => (answer (trimmed line)).complaint?) ++
          (converse json rest source).errors
        code := (converse json rest source).code } := by
  induction lines with
  | nil => simp
  | cons line lines ih =>
      obtain ⟨hline, hlines⟩ := List.forall_mem_cons.mp h
      have hlater := ih hlines
      rw [List.cons_append, converse, hline.reply_eq_done]
      simp only [Rolling.run, hlater, List.map_cons, String.join_cons, List.filterMap_cons,
        String.append_assoc, Transcript.mk.injEq, true_and, and_true]
      cases (answer (trimmed line)).complaint? <;> rfl

/-- What is put before every part and behind the last is put behind every part and before the
first. -/
theorem append_join_append (between : String) (parts : List String) :
    String.join (parts.map (between ++ ·)) ++ between =
      between ++ String.join (parts.map (· ++ between)) := by
  induction parts with
  | nil => simp
  | cons part parts ih =>
      rw [List.map_cons, List.map_cons, String.join_cons, String.join_cons, String.append_assoc, ih]
      simp only [String.append_assoc]

/-- **A session without dice.** Every text that asks for no dice has one answer, which is none for
a blank text, the message of the rejection for a rejected one, and otherwise the roll, as the line
that shows it or as a record of its notation, its constants and its total. A session in which each
line asks for no dice ends with the code for success. It prints a prompt, and for each line its
answer and another prompt; on the error channel there is a complaint for each line that is rejected.
Every answer is one line, and every complaint is printable. -/
theorem converse_of_diceFree (json : Bool) :
    ∃ answer : String → Reply,
      (∀ text, DiceFree text → ∀ reply, Answers json text reply ↔ reply = answer text) ∧
      ∀ {σ : Type} [DieSource σ] (source : σ) (input : String),
        (∀ line ∈ Text.lines input.toList, DiceFree (trimmed line)) →
        converse json (Text.lines input.toList) source =
          { output := prompt ++ String.join ((Text.lines input.toList).map fun line =>
              (answer (trimmed line)).printed ++ prompt)
            errors := (Text.lines input.toList).filterMap fun line =>
              (answer (trimmed line)).complaint?
            code := 0 } ∧
        ∀ line ∈ Text.lines input.toList, (answer (trimmed line)).OneLine := by
  have hexists (text : String) : ∃ reply, DiceFree text → Answers json text reply := by
    by_cases htext : DiceFree text
    · obtain ⟨reply, hreply⟩ := htext.exists_answers json
      exact ⟨reply, fun _ => hreply⟩
    · exact ⟨.silence, fun h => absurd h htext⟩
  choose answer hanswer using hexists
  refine ⟨answer, fun text htext reply => ⟨fun h => h.unique (hanswer text htext), ?_⟩,
    fun source input hinput => ⟨?_, fun line hline => ?_⟩⟩
  · rintro rfl
    exact hanswer text htext
  · have hlines := converse_append (fun line hline => hanswer _ (hinput line hline)) [] source
    have hprompts := append_join_append prompt
      ((Text.lines input.toList).map fun line => (answer (trimmed line)).printed)
    rw [List.map_map, List.map_map] at hprompts
    rw [List.append_nil] at hlines
    rw [hlines, Transcript.mk.injEq]
    exact ⟨hprompts, List.append_nil _, rfl⟩
  · exact (hanswer _ (hinput line hline)).oneLine (oneLine_trimmed hline)

/-- A sum, a blank line, a control character and a number between blanks: two answers, and a
complaint that names the control character. The answers are lines first, and then records. -/
theorem converse_of_diceFree_of_mixed :
    (∀ line ∈ Text.lines "2 + 3\n\n\x07\n 7 \n".toList, DiceFree (trimmed line)) ∧
    converse false (Text.lines "2 + 3\n\n\x07\n 7 \n".toList) (⟨[]⟩ : Replay) =
      { output := "> 2 + 3: [] (+5) = 5\n> > > 7: [] (+7) = 7\n> "
        errors := ["Error: invalid dice notation at position 0 (\"\\u\x7b7\x7d\"): " ++
          "unknown character"]
        code := 0 } ∧
    converse true (Text.lines "2 + 3\n\n\x07\n 7 \n".toList) (⟨[]⟩ : Replay) =
      { output := "> \x7b\"dice_notation\":\"2 + 3\",\"individual_rolls\":[]," ++
          "\"modifiers\":\x7b\"constant_1\":2,\"constant_2\":3\x7d,\"total\":5\x7d\n" ++
          "> > > \x7b\"dice_notation\":\"7\",\"individual_rolls\":[]," ++
          "\"modifiers\":\x7b\"constant_1\":7\x7d,\"total\":7\x7d\n> "
        errors := ["Error: invalid dice notation at position 0 (\"\\u\x7b7\x7d\"): " ++
          "unknown character"]
        code := 0 } := by
  have hlines : (Text.lines "2 + 3\n\n\x07\n 7 \n".toList).map trimmed =
      ["2 + 3", "", "\x07", "7"] := by
    decide +kernel
  have hsum : parse {} "2 + 3" = .ok ⟨"2 + 3", [.constant 2, .operator .plus, .constant 3]⟩ := by
    decide +kernel
  have hcontrol : parse {} "\x07" = .error ⟨.unknownCharacter, 0, 0, 1, "\x07"⟩ := by
    decide +kernel
  have hseven : parse {} "7" = .ok ⟨"7", [.constant 7]⟩ := by decide +kernel
  have hroll {text : String} {expression : Expression} {outcome : Outcome}
      (hparse : parse {} text = .ok expression) (h : expression.roll = .done outcome) :
      rollNotation {} text = .ok (.done outcome) :=
    rollNotation_eq_ok_iff.mpr ⟨expression, hparse, h⟩
  have hfree : ∀ text ∈ ["2 + 3", "", "\x07", "7"], DiceFree text := by
    simp only [List.forall_mem_cons]
    exact ⟨.constants hsum (by simp), .blank rfl, .rejected hcontrol,
      .constants hseven (by simp), nofun⟩
  have hinput : ∀ line ∈ Text.lines "2 + 3\n\n\x07\n 7 \n".toList, DiceFree (trimmed line) :=
    fun line hline => hfree _ (hlines ▸ List.mem_map_of_mem hline)
  -- The session, for the answers to the two notations in either form.
  have hsession {json : Bool} {first second : String}
      (hfirst : Answers json "2 + 3" (.answer first))
      (hsecond : Answers json "7" (.answer second)) :
      converse json (Text.lines "2 + 3\n\n\x07\n 7 \n".toList) (⟨[]⟩ : Replay) =
        { output := prompt ++ String.join ([.answer first, .silence, .complaint
            ("Error: " ++ Rejection.message ⟨.unknownCharacter, 0, 0, 1, "\x07"⟩),
            .answer second].map fun reply : Reply => reply.printed ++ prompt)
          errors := ["Error: " ++ Rejection.message ⟨.unknownCharacter, 0, 0, 1, "\x07"⟩]
          code := 0 } := by
    obtain ⟨answer, hanswer, hrun⟩ := converse_of_diceFree json
    have hreply {text : String} {reply : Reply} (htext : text ∈ ["2 + 3", "", "\x07", "7"])
        (h : Answers json text reply) : answer text = reply :=
      ((hanswer text (hfree text htext) reply).mp h).symm
    have hreplies : (Text.lines "2 + 3\n\n\x07\n 7 \n".toList).map (answer ∘ trimmed) =
        [.answer first, .silence, .complaint
          ("Error: " ++ Rejection.message ⟨.unknownCharacter, 0, 0, 1, "\x07"⟩),
          .answer second] := by
      rw [← List.map_map, hlines]
      simp only [List.map_cons, List.map_nil, hreply (by simp) hfirst,
        hreply (by simp) (.silence rfl), hreply (by simp) (.complaint (by decide) hcontrol),
        hreply (by simp) hsecond]
    have hprinted := congrArg (List.map fun reply => reply.printed ++ prompt) hreplies
    have hcomplaints := congrArg (List.filterMap Reply.complaint?) hreplies
    rw [List.map_map] at hprinted
    rw [List.filterMap_map] at hcomplaints
    refine (hrun (⟨[]⟩ : Replay) _ hinput).1.trans ?_
    rw [Transcript.mk.injEq]
    exact ⟨congrArg (prompt ++ String.join ·) hprinted, hcomplaints, rfl⟩
  refine ⟨hinput, (hsession (.line rfl (hroll hsum rfl)) (.line rfl (hroll hseven rfl))).trans ?_,
    (hsession (.record rfl (hroll hsum rfl)) (.record rfl (hroll hseven rfl))).trans ?_⟩
  · decide +kernel
  · decide +kernel

/-! ### Turns -/

/-- A terminal on paper: the lines that are still to come, and what was printed and complained so
far. -/
structure Script where
  lines : List (List Char)
  output : String
  errors : List String

instance : Terminal (StateM Script) where
  readLine? := modifyGet fun script =>
    match script.lines with
    | [] => (none, script)
    | line :: more => (some line, { script with lines := more })
  print text := modify fun script => { script with output := script.output ++ text }
  complain text := modify fun script => { script with errors := script.errors ++ [text] }
  report _ := pure ()

/-- Plays a session in turns, until it ends or so many turns are taken. -/
def play {σ : Type} {m : Type → Type} [Monad m] [Terminal m] [DieSource σ] (json : Bool) :
    Nat → σ → m (Except Nat σ)
  | 0, source => return .ok source
  | n + 1, source => do
    match ← turn json source with
    | .ok source => play json n source
    | .error code => return .error code

section Playing

variable {σ : Type} [DieSource σ]

/-- What a turn does with the next line of a script. -/
theorem run_turn_cons (json : Bool) (source : σ) (line : List Char) (more : List (List Char))
    (output : String) (errors : List String) :
    (turn json source : StateM Script (Except Nat σ)).run ⟨line :: more, output, errors⟩ =
      match (Console.reply json line).run source with
      | (.ok reply, left) =>
        (.ok left, ⟨more, output ++ prompt ++ reply.printed, errors ++ reply.complaint?.toList⟩)
      | (.error _, _) => (.error faultCode, ⟨more, output ++ prompt, errors⟩) := by
  have hturn : (turn json source : StateM Script (Except Nat σ)).run
      ⟨line :: more, output, errors⟩ =
      (match (Console.reply json line).run source with
        | (.ok reply, left) => (do
            Terminal.print reply.printed
            reply.complaint?.forM Terminal.complain
            return .ok left : StateM Script (Except Nat σ))
        | (.error fault, _) => (do
            Terminal.report fault
            return .error faultCode : StateM Script (Except Nat σ))).run
        ⟨more, output ++ prompt, errors⟩ := rfl
  rw [hturn]
  cases (Console.reply json line).run source with
  | mk result left =>
      cases result with
      | error fault => rfl
      | ok reply =>
          cases reply with
          | complaint text => rfl
          | silence | answer text =>
              simp only [Reply.complaint?, Option.toList_none, List.append_nil]
              rfl

/-- **A session that is played in turns.** On paper, with more turns than lines, a session comes to
its end. What it adds to the output and to the complaints, and the code it ends with, are those of
the session that its lines make, and the lines that it has not read are the last ones. Induction on
the lines: a turn does with its line what the session does. -/
theorem play_eq_converse (json : Bool) (lines : List (List Char)) (source : σ) {n : Nat}
    (h : lines.length < n) (output : String) (errors : List String) :
    ∃ unread, unread <:+ lines ∧
      (play json n source : StateM Script (Except Nat σ)).run ⟨lines, output, errors⟩ =
        (.error (converse json lines source).code,
          ⟨unread, output ++ (converse json lines source).output,
            errors ++ (converse json lines source).errors⟩) := by
  induction lines generalizing source n output errors with
  | nil =>
      obtain ⟨n, rfl⟩ := Nat.exists_eq_add_one_of_ne_zero (Nat.ne_of_gt h)
      refine ⟨[], List.suffix_refl [], ?_⟩
      rw [converse, List.append_nil]
      rfl
  | cons line more ih =>
      obtain ⟨n, rfl⟩ := Nat.exists_eq_add_one_of_ne_zero (Nat.ne_of_gt (Nat.zero_lt_of_lt h))
      have hturn := run_turn_cons json source line more output errors
      rw [play, StateT.run_bind, hturn, converse]
      cases hreply : (Console.reply json line).run source with
      | mk result left =>
          cases result with
          | error fault =>
              refine ⟨more, List.suffix_cons line more, ?_⟩
              rw [List.append_nil]
              rfl
          | ok reply =>
              obtain ⟨unread, hunread, hplay⟩ := ih left (Nat.lt_of_succ_lt_succ h)
                (output ++ prompt ++ reply.printed) (errors ++ reply.complaint?.toList)
              refine ⟨unread, hunread.trans (List.suffix_cons line more), ?_⟩
              refine hplay.trans ?_
              simp only [String.append_assoc, List.append_assoc]

end Playing

end Console

end Dicebox
