import DarjaLang.Position

/-!
# Diagnostics

A diagnostic is a cause together with the place it is about.  Each stage of the interpreter has
its own type of causes; how a cause is worded is a function on that type, and the frame around the
wording is the same everywhere.  Steps that may fail are taken apart by `bind_eq_ok`.
-/

set_option autoImplicit false

namespace DarjaLang

/-- A step after another one succeeds exactly if both do. -/
theorem bind_eq_ok {ε α β : Type} {x : Except ε α} {f : α → Except ε β} {b : β} :
    x >>= f = .ok b ↔ ∃ a, x = .ok a ∧ f a = .ok b := by
  cases x <;> simp [bind, Except.bind]

/-- A cause of failure and the place it is about. -/
structure Diagnostic (ε : Type) where
  cause : ε
  position : Position
  deriving DecidableEq, Repr

namespace Diagnostic

variable {ε φ : Type}

/-- The line that reports a diagnostic. -/
def text (wording : ε → String) (d : Diagnostic ε) : String :=
  "Error on " ++ d.position.describe ++ ": " ++ wording d.cause

/-- The same place with another cause. -/
def map (f : ε → φ) (d : Diagnostic ε) : Diagnostic φ := ⟨f d.cause, d.position⟩

end Diagnostic

end DarjaLang
