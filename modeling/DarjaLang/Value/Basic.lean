import DarjaLang.Binary64.Decimal
import DarjaLang.Numeral

/-!
# Values

A value is a 64-bit integer, a double, a truth value, a string or `walou`, the absence of a value.
`Value.text` is how a value is printed.  An integer and a float are never printed alike: a float
always shows a point.
-/

set_option autoImplicit false

namespace DarjaLang

/-- What a program computes with. -/
inductive Value
  | integer (n : Int64)
  | float (x : Float)
  | boolean (b : Bool)
  | string (s : String)
  | walou
  deriving BEq

/-- The types of values. -/
inductive ValueType
  | integer
  | float
  | boolean
  | string
  | walou
  deriving DecidableEq, Repr

/-- The name of a type, as `type` returns it. -/
def ValueType.name : ValueType → String
  | integer => "integer"
  | float => "float"
  | boolean => "boolean"
  | string => "string"
  | walou => "walou"

namespace Value

/-- The type of a value. -/
def type : Value → ValueType
  | integer _ => .integer
  | float _ => .float
  | boolean _ => .boolean
  | string _ => .string
  | walou => .walou

/-- Integers and floats. -/
def isNumeric : Value → Bool
  | integer _ | float _ => true
  | _ => false

/-- The integer that a value is. -/
def integer? : Value → Option Int64
  | integer n => some n
  | _ => none

/-- A value as it is printed. -/
def text : Value → String
  | integer n => String.ofList (Numeral.ofInt n.toInt)
  | float x => Binary64.text x
  | boolean b => if b then "sah" else "ghalet"
  | string s => s
  | walou => "walou"

end Value

end DarjaLang
