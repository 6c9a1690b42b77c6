import DarjaLang.Evaluation.Error
import DarjaLang.Syntax.Basic

/-!
# Conversions between values

An integer becomes a float only if that loses nothing: beyond `2 ^ 53 - 1` in absolute value not
every integer is a double, so larger ones are refused.  A float becomes an integer by cutting off
its fractional part, and is refused if the rest is not in the range of integers.
-/

set_option autoImplicit false

namespace DarjaLang

/-- The largest integer up to which every integer is a double. -/
def maxExactInteger : Nat := Nat.pow 2 53 - 1

/-- The double equal to an integer; none if it is too large to be sure of that. -/
def exactFloat? (n : Int64) : Option Float :=
  if n.toInt.natAbs ≤ maxExactInteger then some (Binary64.ofInt n.toInt) else none

namespace Value

/-- An exact integer result as a value, if it is in range. -/
def ofInt? (n : Int) : Except EvalError Value :=
  match Numeral.fit? n with
  | some w => .ok (integer w)
  | none => .error .overflow

/-- A count as a value. -/
def ofCount? (n : Nat) : Except EvalError Value := ofInt? n

/-- The value of a literal. -/
def ofLiteral? : Literal → Except EvalError Value
  | .integer digits =>
    match Numeral.int64? digits.toList with
    | some n => .ok (integer n)
    | none => .error .overflow
  | .float x => .ok (float x)
  | .boolean b => .ok (boolean b)
  | .string s => .ok (string s)
  | .walou => .ok walou

/-- A number as a float. -/
def toFloat? : Value → Except EvalError Float
  | float x => .ok x
  | integer n =>
    match exactFloat? n with
    | some x => .ok x
    | none => .error .overflow
  | v => .error (.typeMismatch (.notNumber v.type))

/-- A truth value. -/
def toBoolean? : Value → Except EvalError Bool
  | boolean b => .ok b
  | v => .error (.typeMismatch (.notBoolean v.type))

/-- A float without its fractional part, as an integer.  Whether it is in the range of integers is
asked of doubles: the greatest integer becomes `2 ^ 63` there, which is itself out of range. -/
def truncate? (x : Float) : Except EvalError Value :=
  if !x.isFinite then .error (.invalidArgument (.notFinite x))
  else
    let truncated := Binary64.trunc x
    if truncated < Binary64.ofInt Int64.minValue.toInt ||
        truncated ≥ Binary64.ofInt Int64.maxValue.toInt then .error .overflow
    else .ok (integer (Binary64.toInt64 truncated))

end Value

end DarjaLang
