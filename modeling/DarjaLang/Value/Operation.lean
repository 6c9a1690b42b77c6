import DarjaLang.Value.Conversion

/-!
# Operators on values

* Arithmetic on two integers is exact or refused; on a float and any number it is done on floats,
  and a result that is not finite is refused unless an operand was not finite either.  `+` also
  joins strings.
* Equality is defined on all values.  An integer equals a float if the float has no fractional part,
  is in the range of integers and becomes that integer.
* The other comparisons order numbers, and strings by their characters.  A comparison with NaN does
  not hold.
* Connectives take truth values.
-/

set_option autoImplicit false

namespace DarjaLang

/-! ## Arithmetic -/

/-- Arithmetic on two integers.  A remainder is refused together with the quotient it belongs
to. -/
def Arithmetic.onIntegers (op : Arithmetic) (a b : Int) : Except EvalError Value :=
  match op with
  | add => Value.ofInt? (a + b)
  | subtract => Value.ofInt? (a - b)
  | multiply => Value.ofInt? (a * b)
  | divide => if b = 0 then .error .divisionByZero else Value.ofInt? (a.tdiv b)
  | remainder =>
    if b = 0 then .error .divisionByZero
    else do
      let _ ← Value.ofInt? (a.tdiv b)
      Value.ofInt? (a.tmod b)

/-- Arithmetic on two doubles, with the results that doubles have. -/
def Arithmetic.onDoubles (op : Arithmetic) (x y : Float) : Float :=
  match op with
  | add => x + y
  | subtract => x - y
  | multiply => x * y
  | divide => x / y
  | remainder => Binary64.remainder x y

/-- The operators that have no result for a divisor of zero. -/
def Arithmetic.divides : Arithmetic → Bool
  | divide | remainder => true
  | _ => false

/-- Arithmetic on two floats, where finite operands have a finite result or none. -/
def Arithmetic.onFloats (op : Arithmetic) (x y : Float) : Except EvalError Value :=
  if op.divides && y == 0.0 then .error .divisionByZero
  else
    let r := op.onDoubles x y
    if !r.isFinite && x.isFinite && y.isFinite then .error .overflow else .ok (.float r)

/-- Arithmetic on two values. -/
def Arithmetic.apply (op : Arithmetic) : Value → Value → Except EvalError Value
  | .integer a, .integer b => op.onIntegers a.toInt b.toInt
  | a, b =>
    match op, a, b with
    | .add, .string s, .string t => .ok (.string (s ++ t))
    | _, _, _ =>
      if a.isNumeric && b.isNumeric then do
        let x ← a.toFloat?
        let y ← b.toFloat?
        op.onFloats x y
      else .error (.typeMismatch (.operands (.arithmetic op) a.type b.type))

/-! ## Comparison -/

namespace Value

/-- Whether a float is an integer.  Only a float in the range of integers may be cast to one. -/
def integerEqualsFloat (n : Int64) (x : Float) : Bool :=
  Binary64.fract x == 0.0 && x ≥ Binary64.ofInt Int64.minValue.toInt &&
    x < Binary64.ofInt Int64.maxValue.toInt && Binary64.toInt64 x == n

/-- The same value, or the same number. -/
def equals : Value → Value → Bool
  | integer a, integer b => a == b
  | float x, float y => x == y
  | integer a, float x | float x, integer a => integerEqualsFloat a x
  | boolean a, boolean b => a == b
  | string s, string t => s == t
  | walou, walou => true
  | _, _ => false

end Value

/-- How two doubles are ordered; not at all if one of them is NaN. -/
def Binary64.order? (x y : Float) : Option Ordering :=
  if x < y then some .lt
  else if y < x then some .gt
  else if x == y then some .eq
  else none

/-- How two values are ordered, if `op` may ask for it. -/
def Comparison.order? (op : Comparison) : Value → Value → Except EvalError (Option Ordering)
  | .integer a, .integer b => .ok (some (compare a.toInt b.toInt))
  | .string s, .string t => .ok (some (compare s t))
  | a, b =>
    if a.isNumeric && b.isNumeric then do
      let x ← a.toFloat?
      let y ← b.toFloat?
      return Binary64.order? x y
    else .error (.typeMismatch (.operands (.comparison op) a.type b.type))

/-- A comparison of two values. -/
def Comparison.apply (op : Comparison) (a b : Value) : Except EvalError Value :=
  match op with
  | equal => .ok (.boolean (a.equals b))
  | notEqual => .ok (.boolean (!a.equals b))
  | op => do
    let order ← op.order? a b
    return .boolean (order.any op.holds)

/-! ## Connectives and the operators as a whole -/

/-- A connective between two values. -/
def Connective.apply (op : Connective) (a b : Value) : Except EvalError Value := do
  let p ← a.toBoolean?
  let q ← b.toBoolean?
  return .boolean (op.join p q)

/-- A binary operator between two values. -/
def BinaryOperator.apply : BinaryOperator → Value → Value → Except EvalError Value
  | arithmetic op => op.apply
  | comparison op => op.apply
  | connective op => op.apply

/-- An operator in front of a value. -/
def UnaryOperator.apply : UnaryOperator → Value → Except EvalError Value
  | negate, .integer n => Value.ofInt? (-n.toInt)
  | negate, .float x => .ok (.float (-x))
  | negate, v => .error (.typeMismatch (.notNegatable v.type))
  | not, v => do
    let b ← v.toBoolean?
    return .boolean (!b)

end DarjaLang
