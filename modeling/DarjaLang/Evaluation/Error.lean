import DarjaLang.Syntax.Error
import DarjaLang.Value.Basic

/-!
# What can go wrong when a statement is evaluated

The causes for which an evaluation fails.  Operations on values raise a cause; where in the program
it is reported is added by whoever has the position (`locate`).
-/

set_option autoImplicit false

namespace DarjaLang

/-- How a value fails to have the type that is needed. -/
inductive Mismatch
  | notNumber (found : ValueType)
  | notBoolean (found : ValueType)
  | notNegatable (found : ValueType)
  | operands (op : BinaryOperator) (left right : ValueType)
  | argument (function expected : String) (found : ValueType)
  deriving DecidableEq, Repr

/-- How an argument of the right type is still no good. -/
inductive BadArgument
  | notFinite (x : Float)
  | negativeRoot (v : Value)
  | notInteger (s : String)
  | notNumber (s : String)

/-- How many arguments a function takes. -/
inductive Arity
  | exactly (n : Nat)
  | atLeast (n : Nat)
  deriving DecidableEq, Repr

/-- Causes of a failed evaluation. -/
inductive EvalError
  | unboundVariable (name : String)
  | typeMismatch (why : Mismatch)
  | divisionByZero
  | overflow
  | unknownFunction (name : String)
  | argumentCount (function : String) (expected : Arity) (found : Nat)
  | invalidArgument (why : BadArgument)
  | iterationLimit (limit : UInt64)
  /-- The statement stands for a line that could not be read. -/
  | unparsed (error : ParseError)

/-- The wording of a mismatch. -/
def Mismatch.message : Mismatch → String
  | notNumber found => "expected a number, found " ++ found.name
  | notBoolean found => "expected a boolean, found " ++ found.name
  | notNegatable found => "cannot negate a " ++ found.name
  | operands op left right =>
    "cannot apply '" ++ op.symbol ++ "' to " ++ left.name ++ " and " ++ right.name
  | argument function expected found =>
    function ++ "() expects " ++ expected ++ ", found " ++ found.name

/-- The wording of a complaint about an argument. -/
def BadArgument.message : BadArgument → String
  | notFinite x => "cannot convert " ++ Binary64.shortest x ++ " to an integer"
  | negativeRoot v => "cannot take the square root of " ++ v.text
  | notInteger s => "'" ++ s ++ "' is not an integer"
  | notNumber s => "'" ++ s ++ "' is not a number"

namespace Arity

/-- The wording of a number of arguments. -/
def text : Arity → String
  | exactly n => toString n
  | atLeast n => "at least " ++ toString n

/-- Whether so many arguments will do. -/
def admits : Arity → Nat → Bool
  | exactly n, found => found == n
  | atLeast n, found => n ≤ found

end Arity

/-- The wording of a cause. -/
def EvalError.message : EvalError → String
  | unboundVariable name => "Unbound variable '" ++ name ++ "'."
  | typeMismatch why => "Type mismatch: " ++ why.message ++ "."
  | divisionByZero => "Division by zero."
  | overflow => "Numeric overflow while trying to compute result."
  | unknownFunction name => "Unknown function '" ++ name ++ "'."
  | argumentCount function expected found =>
    "'" ++ function ++ "' takes " ++ expected.text ++ " argument(s) but " ++ toString found ++
      " were given."
  | invalidArgument why => "Invalid argument: " ++ why.message ++ "."
  | iterationLimit limit => "Loop exceeded the limit of " ++ toString limit.toNat ++ " iterations."
  | unparsed error => error.message

/-- A failed evaluation: what went wrong, and where. -/
abbrev Trouble := Diagnostic EvalError

/-- Puts the place to a cause. -/
def locate {α : Type} (position : Position) : Except EvalError α → Except Trouble α
  | .ok a => .ok a
  | .error cause => .error ⟨cause, position⟩

end DarjaLang
