import Dicebox.Console

/-!
# The command line

Starts the console on the standard channels. Dice come from the generator of the core
library, from a given seed or from one that differs with every start.
-/

namespace Dicebox

instance : DieSource StdGen where
  draw sides generator :=
    if sides = 0 then (.error .noSides, generator)
    else
      let (value, generator) := randNat generator 1 sides.toNat
      (.ok (.ofNat value), generator)

instance : Console.Terminal IO where
  readLine? := do
    let line ← (← IO.getStdin).getLine
    return if line.isEmpty then none else some line.toList
  print text := do
    let output ← IO.getStdout
    output.putStr text
    output.flush
  complain := IO.eprintln
  report fault := IO.eprintln fault.message

/-- Takes turns until the session ends. -/
partial def Console.loop (json : Bool) (generator : StdGen) : IO Nat := do
  match ← Console.turn json generator with
  | .ok generator => Console.loop json generator
  | .error code => return code

end Dicebox

open Dicebox in
/-- Starts the console. -/
def main (args : List String) : IO UInt32 := do
  match Console.Options.ofArgs? args with
  | none =>
    IO.eprintln "usage: [-j|--json] [-d|--debug] [-s|--seed <seed>]"
    return .ofNat Console.usageCode
  | some options =>
    let seed ← match options.seed with
      | some seed => pure seed
      | none => IO.rand 0 0x7FFFFFFF
    return .ofNat (← Console.loop options.json (mkStdGen seed))
