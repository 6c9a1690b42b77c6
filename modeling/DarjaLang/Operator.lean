/-!
# Operators

The binary operators fall into three families, and each family is a type of its own: arithmetic
takes numbers (and joins strings), comparison orders or equates, and a connective joins truth
values.  A function on one family therefore has no case for the others.
-/

set_option autoImplicit false

namespace DarjaLang

/-- The operators in front of one operand. -/
inductive UnaryOperator
  | negate
  | not
  deriving DecidableEq, Repr

/-- The operators that compute. -/
inductive Arithmetic
  | add
  | subtract
  | multiply
  | divide
  | remainder
  deriving DecidableEq, Repr

/-- The operators that compare. -/
inductive Comparison
  | less
  | greater
  | lessEqual
  | greaterEqual
  | equal
  | notEqual
  deriving DecidableEq, Repr

/-- The operators that join truth values. -/
inductive Connective
  | and
  | or
  deriving DecidableEq, Repr

/-- The operators between two operands. -/
inductive BinaryOperator
  | arithmetic (op : Arithmetic)
  | comparison (op : Comparison)
  | connective (op : Connective)
  deriving DecidableEq, Repr

/-- An operator as it is written. -/
def UnaryOperator.symbol : UnaryOperator → String
  | .negate => "-"
  | .not => "!"

/-- An operator as it is written. -/
def Arithmetic.symbol : Arithmetic → String
  | .add => "+"
  | .subtract => "-"
  | .multiply => "*"
  | .divide => "/"
  | .remainder => "%"

/-- An operator as it is written. -/
def Comparison.symbol : Comparison → String
  | .less => "<"
  | .greater => ">"
  | .lessEqual => "<="
  | .greaterEqual => ">="
  | .equal => "=="
  | .notEqual => "!="

/-- Whether a comparison holds between two things that are ordered in the given way. -/
def Comparison.holds : Comparison → Ordering → Bool
  | .less, o => o == .lt
  | .greater, o => o == .gt
  | .lessEqual, o => o != .gt
  | .greaterEqual, o => o != .lt
  | .equal, o => o == .eq
  | .notEqual, o => o != .eq

/-- An operator as it is written. -/
def Connective.symbol : Connective → String
  | .and => "&&"
  | .or => "||"

/-- The truth value that decides a connective when it stands on the left. -/
def Connective.deciding : Connective → Bool
  | .and => false
  | .or => true

/-- What a connective makes of two truth values. -/
def Connective.join : Connective → Bool → Bool → Bool
  | .and, a, b => a && b
  | .or, a, b => a || b

namespace BinaryOperator

/-- An operator as it is written. -/
def symbol : BinaryOperator → String
  | arithmetic op => op.symbol
  | comparison op => op.symbol
  | connective op => op.symbol

/-- The operators whose result is a truth value found by comparing. -/
def isComparison : BinaryOperator → Bool
  | comparison _ => true
  | _ => false

end BinaryOperator

end DarjaLang
