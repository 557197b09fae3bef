import Dicebox.Evaluate
import Dicebox.Stored
import Dicebox.Text.Blank

/-!
# The console

The console reads notation line by line and answers each line with one line: the roll, or its
record as JSON. Notation that is rejected is answered on the error channel instead, and blank
lines are not answered at all. Before every line the console prompts.

A line is answered on its own: what one line asks for changes nothing for the next, except
that the dice go on from where the source was left.

The console can be asked to keep a log, which goes to the error channel as well and tells what was
parsed and what was rolled. The option is read like the others, but the log itself is left out
here: nothing that is printed, no complaint and no die depends on it.

## Main definitions

* `Console.Options`, `Console.Options.ofArgs?` — how the console is started.
* `Console.Reply`, `Console.reply` — the answer to one line.
* `Console.Terminal`, `Console.turn` — what a session does with one line, on any terminal.
* `Console.Transcript`, `Console.converse` — a session of any number of lines.
-/

namespace Dicebox.Console

/-- How the console is started. -/
structure Options where
  /-- Rolls are shown as JSON records. -/
  json : Bool := false
  /-- A log is kept. What goes into it is left out here. -/
  debug : Bool := false
  /-- The number that determines the dice. -/
  seed : Option Nat := none
  deriving DecidableEq, Repr

namespace Options

/-- Sets the seed, which is given once, as a 64-bit number. -/
def setSeed? (options : Options) (value : List Char) : Option Options := do
  if options.seed.isSome then none
  else return { options with seed := some (← Text.word64? value) }

/-- Turns on an option, once, by its letter. -/
def turnOn? (options : Options) : Char → Option Options
  | 'j' => if options.json then none else some { options with json := true }
  | 'd' => if options.debug then none else some { options with debug := true }
  | _ => none

/-- Reads letters written together behind one dash. A seed takes the letters behind its own;
when there are none, the seed is the next argument, and the result says so. -/
def ofLetters? (options : Options) : List Char → Option (Options × Bool)
  | [] => some (options, false)
  | ['s'] => some (options, true)
  | 's' :: '=' :: value | 's' :: value => (options.setSeed? value).map (·, false)
  | letter :: more => do (← options.turnOn? letter).ofLetters? more

/-- Reads one argument. The second component says whether it asks for a seed to follow. -/
def ofArg? (options : Options) (arg : List Char) : Option (Options × Bool) :=
  match arg with
  | '-' :: '-' :: name =>
    if name = "json".toList then (options.turnOn? 'j').map (·, false)
    else if name = "debug".toList then (options.turnOn? 'd').map (·, false)
    else if name = "seed".toList then some (options, true)
    else
      match "seed=".toList.isPrefixOf? name with
      | some value => (options.setSeed? value).map (·, false)
      | none => none
  | '-' :: letter :: more => options.ofLetters? (letter :: more)
  | _ => none

/-- Reads arguments from the options found so far on. Two dashes alone end the options; as
the console takes no other arguments, nothing may stand behind them. -/
def readArgs? (options : Options) : List String → Option Options
  | [] => some options
  | arg :: more =>
    if arg = "--" then
      if more.isEmpty then some options else none
    else
      match options.ofArg? arg.toList with
      | none => none
      | some (options, false) => options.readArgs? more
      | some (options, true) =>
        match more with
        | [] => none
        | value :: more => do (← options.setSeed? value.toList).readArgs? more

/-- The options that arguments ask for; none if they are not understood. -/
def ofArgs? (args : List String) : Option Options :=
  readArgs? {} args

end Options

/-! ### Lines and answers -/

/-- The exit code after a fault. -/
def faultCode : Nat := 101

/-- The exit code when the arguments are not understood. -/
def usageCode : Nat := 2

/-- The answer to a line. -/
inductive Reply where
  /-- A blank line has no answer. -/
  | silence
  /-- The line is a roll. -/
  | answer (text : String)
  /-- The line is rejected. -/
  | complaint (text : String)
  deriving DecidableEq, Repr

/-- How an outcome is shown. -/
def shown (json : Bool) (outcome : Outcome) : String :=
  if json then outcome.record.toJson.text else outcome.output

/-- Answers a line. -/
def reply (json : Bool) (line : List Char) : Rolling Reply :=
  let text := Text.strip line
  if text.isEmpty then .done .silence
  else
    match rollNotation {} (String.ofList text) with
    | .ok rolling => do return .answer (shown json (← rolling))
    | .error rejection => .done (.complaint ("Error: " ++ rejection.message))

/-- What is printed before every line. -/
def prompt : String := "> "

/-- What an answer puts on the output channel. -/
def Reply.printed : Reply → String
  | answer text => text ++ "\n"
  | silence | complaint _ => ""

/-- What an answer puts on the error channel. -/
def Reply.complaint? : Reply → Option String
  | complaint text => some text
  | silence | answer _ => none

/-! ### Sessions -/

/-- What a session needs of the world around it. -/
class Terminal (m : Type → Type) where
  /-- Reads the next line, if there is one. -/
  readLine? : m (Option (List Char))
  /-- Prints on the output channel. -/
  print : String → m Unit
  /-- Puts a line on the error channel. -/
  complain : String → m Unit
  /-- Reports a fault, in a form of its own. -/
  report : Fault → m Unit

/-- One turn of a session: prompts, reads a line and answers it. The session goes on with what is
left of the source, or ends with a code. -/
def turn {σ : Type} {m : Type → Type} [Monad m] [Terminal m] [DieSource σ] (json : Bool)
    (source : σ) : m (Except Nat σ) := do
  Terminal.print prompt
  match ← Terminal.readLine? with
  | none => return .error 0
  | some line =>
    match (reply json line).run source with
    | (.ok answer, source) =>
      Terminal.print answer.printed
      answer.complaint?.forM Terminal.complain
      return .ok source
    | (.error fault, _) =>
      Terminal.report fault
      return .error faultCode

/-- A whole session: what was printed, the complaints on the error channel, and the exit code. -/
structure Transcript where
  output : String
  errors : List String
  code : Nat
  deriving DecidableEq, Repr

/-- The session that lines make with a source of dice. It ends with the last line, or early
when the source fails. -/
def converse {σ : Type} [DieSource σ] (json : Bool) : List (List Char) → σ → Transcript
  | [], _ => ⟨prompt, [], 0⟩
  | line :: more, source =>
    match (reply json line).run source with
    | (.error _, _) => ⟨prompt, [], faultCode⟩
    | (.ok answer, source) =>
      let later := converse json more source
      ⟨prompt ++ answer.printed ++ later.output, answer.complaint?.toList ++ later.errors,
        later.code⟩

end Dicebox.Console
