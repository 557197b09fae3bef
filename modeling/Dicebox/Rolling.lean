import Dicebox.Fault

/-!
# Rolling

What a roll does depends on dice that are not known before they are rolled. A `Rolling` is
the whole tree of what can happen: it is done, or it fails, or it asks for the value of a die
and goes on in a way that depends on the answer. Where the values come from is no part of it;
a source is brought in by `Rolling.run`, and everything that is said of the tree holds for
every source.

## Main definitions

* `Rolling` — a computation that rolls dice, with its monad structure.
* `DieSource` — the types whose values give the values of dice.
* `Rolling.run` — what a computation does with a source, and what it leaves of the source.

## Main results

* `Rolling.bind_assoc` and the `LawfulMonad` instance — computations may be cut into steps in
  any way.
-/

namespace Dicebox

/-- A computation that rolls dice. -/
inductive Rolling (α : Type) where
  | done (value : α)
  | failed (fault : Fault)
  /-- Asks for the value of a die of these sides and goes on with the answer. -/
  | ask (sides : UInt32) (next : UInt32 → Rolling α)

namespace Rolling

variable {α β : Type}

/-- Goes on with the value of a computation when it is done. -/
def bind : Rolling α → (α → Rolling β) → Rolling β
  | done value, f => f value
  | failed fault, _ => failed fault
  | ask sides next, f => ask sides fun value => (next value).bind f

instance : Monad Rolling where
  pure := done
  bind := bind

@[simp] theorem pure_eq_done (value : α) : (pure value : Rolling α) = done value := rfl

@[simp] theorem done_bind (value : α) (f : α → Rolling β) : done value >>= f = f value := rfl

@[simp] theorem failed_bind (fault : Fault) (f : α → Rolling β) :
    failed fault >>= f = failed fault := rfl

@[simp] theorem ask_bind (sides : UInt32) (next : UInt32 → Rolling α) (f : α → Rolling β) :
    ask sides next >>= f = ask sides fun value => next value >>= f := rfl

/-- Going on with nothing changes nothing. -/
theorem bind_done (rolling : Rolling α) : rolling >>= done = rolling := by
  induction rolling with
  | done | failed => rfl
  | ask sides next ih => simp only [ask_bind, ih]

/-- How steps are grouped makes no difference. -/
theorem bind_assoc {γ : Type} (rolling : Rolling α) (f : α → Rolling β) (g : β → Rolling γ) :
    rolling >>= f >>= g = rolling >>= fun value => f value >>= g := by
  induction rolling with
  | done | failed => rfl
  | ask sides next ih => simp only [ask_bind, ih]

instance : LawfulMonad Rolling :=
  .mk' Rolling bind_done (fun _ _ => rfl) bind_assoc

end Rolling

/-- The types whose values give the values of dice. A draw leaves a source behind whether or
not it gives a value. -/
class DieSource (σ : Type) where
  draw : UInt32 → σ → Except Shortage UInt32 × σ

/-- What a computation does with a source, and what it leaves of the source. -/
def Rolling.run {α σ : Type} [DieSource σ] : Rolling α → σ → Except Fault α × σ
  | done value, source => (.ok value, source)
  | failed fault, source => (.error fault, source)
  | ask sides next, source =>
    match DieSource.draw sides source with
    | (.ok value, source) => (next value).run source
    | (.error shortage, source) => (.error (.shortage shortage), source)

end Dicebox
