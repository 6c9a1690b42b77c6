/-!
# Positions in a program text

Every token, node and diagnostic carries the place where it starts.  Lines are absolute: a session
numbers the lines it is given from one and never starts over, so a position stays meaningful for
the whole run.  Columns count characters, not bytes, from one.
-/

set_option autoImplicit false

namespace DarjaLang

/-- A place in the program text. -/
structure Position where
  line : Nat
  column : Nat
  deriving DecidableEq, Repr

namespace Position

/-- What a complaint points at when there is no token left to point at. -/
def unknown : Position := ⟨0, 0⟩

/-- The wording of a position inside a diagnostic. -/
def describe (p : Position) : String :=
  "line " ++ toString p.line ++ ", column " ++ toString p.column

/-- The same place in a text that has `k` more lines in front of it. -/
def shiftDown (p : Position) (k : Nat) : Position := ⟨p.line + k, p.column⟩

@[simp] theorem shiftDown_zero (p : Position) : p.shiftDown 0 = p := rfl

@[simp] theorem shiftDown_shiftDown (p : Position) (j k : Nat) :
    (p.shiftDown j).shiftDown k = p.shiftDown (j + k) := by
  simp [shiftDown, Nat.add_assoc]

end Position

end DarjaLang
