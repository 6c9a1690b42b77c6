import DarjaLang.Evaluation.Error

/-!
# Machines that can fault

The definitions of the interpreter are total.  A machine that carries them out is not: some of its
instructions and some of its routines have no result for some operands, and then it stops for good.
The modules of this folder write the interpreter down for such a machine and show that it does what
the definitions say, so that it never gets to such a point.

* `Fault` lists the points at which a machine stops.
* `Machine` is a computation that may get to one of them.  An `Attempt` may also fail in a way that
  the program is told of; `Attempt.sure` is one without any fault.
-/

set_option autoImplicit false

namespace DarjaLang

/-- The routines that are meant for some of the operators only. -/
inductive Routine
  | integers
  | floats
  | equality
  | order
  | connectives
  deriving DecidableEq, Repr

/-- The points at which a machine stops for good. -/
inductive Fault
  /-- A routine was given an operator that it is not meant for. -/
  | operator (routine : Routine)
  /-- An argument was read that had not been given. -/
  | argument
  /-- A text was cut within a character, behind its end, or from back to front. -/
  | cut
  /-- An instruction on integers had a result that is out of range. -/
  | overflow
  | zeroDivisor
  /-- A counter had reached its largest value and was to be increased. -/
  | counter
  deriving DecidableEq, Repr

/-- A computation that may fault. -/
abbrev Machine (α : Type) := Except Fault α

/-- A computation that may fault, and may fail. -/
abbrev Attempt (ε α : Type) := ExceptT ε Machine α

namespace Attempt

variable {ε α β : Type}

/-- The machine faults. -/
def fault (f : Fault) : Attempt ε α := .mk (.error f)

/-- A result or a failure without a fault. -/
def sure (x : Except ε α) : Attempt ε α := .mk (.ok x)

/-- The program is told of a failure. -/
def fail (e : ε) : Attempt ε α := sure (.error e)

/-- What is sure after something sure is sure. -/
theorem sure_bind {x : Except ε α} {g : α → Attempt ε β} {g' : α → Except ε β}
    (h : ∀ a, g a = sure (g' a)) : sure x >>= g = sure (x >>= g') := by
  cases x with
  | error e => rfl
  | ok a => exact h a

/-- An attempt whose failure is put to a place. -/
def placedAt (x : Attempt EvalError α) (position : Position) : Attempt Trouble α :=
  .mk (x.run.map (locate position))

theorem sure_placedAt (x : Except EvalError α) (position : Position) :
    (sure x).placedAt position = sure (locate position x) := rfl

end Attempt

end DarjaLang
