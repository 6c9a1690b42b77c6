import DarjaLang.Value.Conversion
import DarjaLang.WhiteSpace

/-!
# Builtin functions

The functions that every program can call.  A call names its function by a string; `Builtin.ofName?`
finds it, `Builtin.arity` says how many arguments it takes, and `Builtin.apply` computes it.  Since
no builtin takes less than one argument, `apply` is given the first one on its own.

`min` and `max` stay with the integers if all arguments are integers, and otherwise compare floats.
-/

set_option autoImplicit false

namespace DarjaLang

/-- The smallest or the largest of some numbers. -/
inductive Extremum
  | least
  | greatest
  deriving DecidableEq, Repr

namespace Extremum

/-- The one of two integers. -/
def ofIntegers : Extremum → Int64 → Int64 → Int64
  | least, a, b => if b < a then b else a
  | greatest, a, b => if a < b then b else a

/-- The one of two doubles. -/
def ofDoubles : Extremum → Float → Float → Float
  | least => Binary64.least
  | greatest => Binary64.greatest

/-- The extremum of at least one number, under the name of the function that asks for it. -/
def apply (e : Extremum) (function : String) (first : Value) (rest : List Value) :
    Except EvalError Value :=
  match (first :: rest).find? (!·.isNumeric) with
  | some v => .error (.typeMismatch (.argument function "numbers" v.type))
  | none =>
    match first.integer?, rest.mapM Value.integer? with
    | some n, some ns => .ok (.integer (ns.foldl e.ofIntegers n))
    | _, _ => do
      let x ← first.toFloat?
      let xs ← rest.mapM Value.toFloat?
      return .float (xs.foldl e.ofDoubles x)

/-- The extremum of a list of arguments that may be empty. -/
def applyAll (e : Extremum) (function : String) : List Value → Except EvalError Value
  | [] => .error (.argumentCount function (.atLeast 1) 0)
  | first :: rest => e.apply function first rest

end Extremum

/-- The builtin functions. -/
inductive Builtin
  | abs
  | sqrt
  | int
  | float
  | str
  | len
  | type
  | min
  | max
  deriving DecidableEq, Repr

namespace Builtin

/-- All builtin functions. -/
def all : List Builtin := [abs, sqrt, int, float, str, len, type, min, max]

/-- The name a function is called by. -/
def name : Builtin → String
  | abs => "abs"
  | sqrt => "sqrt"
  | int => "int"
  | float => "float"
  | str => "str"
  | len => "len"
  | type => "type"
  | min => "min"
  | max => "max"

/-- The function with a name. -/
def ofName? (s : String) : Option Builtin := all.find? (·.name == s)

/-- How many arguments a function takes. -/
def arity : Builtin → Arity
  | min | max => .atLeast 1
  | _ => .exactly 1

/-- The complaint about an argument of the wrong type. -/
def wrongType (b : Builtin) (expected : String) (v : Value) : EvalError :=
  .typeMismatch (.argument b.name expected v.type)

/-- The absolute value of a number. -/
def absoluteValue : Value → Except EvalError Value
  | .integer n => Value.ofInt? n.toInt.natAbs
  | .float x => .ok (.float x.abs)
  | v => .error (abs.wrongType "a number" v)

/-- The square root of a number that is not negative, always a float. -/
def squareRoot (v : Value) : Except EvalError Value :=
  if v.isNumeric then do
    let x ← v.toFloat?
    if x < 0.0 then .error (.invalidArgument (.negativeRoot v)) else .ok (.float x.sqrt)
  else .error (sqrt.wrongType "a number" v)

/-- A value as an integer: floats are truncated, strings read with white space around the number
ignored, and truth values are one and zero. -/
def toInteger : Value → Except EvalError Value
  | .integer n => .ok (.integer n)
  | .float x => Value.truncate? x
  | .boolean b => .ok (.integer (if b then 1 else 0))
  | .string s =>
    match Numeral.int64? (WhiteSpace.trim s.toList) with
    | some n => .ok (.integer n)
    | none => .error (.invalidArgument (.notInteger s))
  | .walou => .error (int.wrongType "a number, string or boolean" .walou)

/-- A value as a float: integers if that loses nothing, and strings if they read as a finite
number. -/
def toFloating : Value → Except EvalError Value
  | .string s =>
    match (Binary64.ofText? (WhiteSpace.trim s.toList)).filter Float.isFinite with
    | some x => .ok (.float x)
    | none => .error (.invalidArgument (.notNumber s))
  | v =>
    if v.isNumeric then v.toFloat?.map .float
    else .error (float.wrongType "a number or string" v)

/-- The number of characters of a string. -/
def length : Value → Except EvalError Value
  | .string s => Value.ofCount? s.length
  | v => .error (len.wrongType "a string" v)

/-- What a function makes of its arguments, of which there is at least one. -/
def apply (b : Builtin) (first : Value) (rest : List Value) : Except EvalError Value :=
  match b with
  | abs => absoluteValue first
  | sqrt => squareRoot first
  | int => toInteger first
  | float => toFloating first
  | str => .ok (.string first.text)
  | len => length first
  | type => .ok (.string first.type.name)
  | min => Extremum.least.apply b.name first rest
  | max => Extremum.greatest.apply b.name first rest

end Builtin

/-- Calls a function by its name: the name is looked up first, then the arguments are counted. -/
def callFunction (name : String) (arguments : List Value) : Except EvalError Value :=
  match Builtin.ofName? name with
  | none => .error (.unknownFunction name)
  | some b =>
    match arguments with
    | [] => .error (.argumentCount name b.arity 0)
    | first :: rest =>
      if b.arity.admits arguments.length then b.apply first rest
      else .error (.argumentCount name b.arity arguments.length)

end DarjaLang
