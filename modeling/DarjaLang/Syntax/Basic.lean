import DarjaLang.Syntax.Error

/-!
# Syntax trees

Every node ends with the place it is reported at: an operator node at its operator, a call and a
variable at the name, a literal at itself, and a statement at its first token.

A statement may also be `invalid`: it then stands for a line that could not be read, and carries
the complaint about it.
-/

set_option autoImplicit false

namespace DarjaLang

/-- Values written out in the program.  An integer keeps its digits: whether it fits into a word
is decided when it is evaluated. -/
inductive Literal
  | integer (digits : String)
  | float (value : Float)
  | boolean (value : Bool)
  | string (text : String)
  | walou

/-- Expressions. -/
inductive Expr
  | literal (value : Literal) (position : Position)
  | var (name : String) (position : Position)
  | unary (op : UnaryOperator) (operand : Expr) (position : Position)
  | binary (op : BinaryOperator) (left right : Expr) (position : Position)
  | call (name : String) (arguments : List Expr) (position : Position)

namespace Expr

/-- The place an expression is reported at. -/
def position : Expr → Position
  | literal _ p | var _ p | unary _ _ p | binary _ _ _ p | call _ _ p => p

mutual

/-- The number of nodes on the longest way down. -/
def height : Expr → Nat
  | literal _ _ | var _ _ => 1
  | unary _ operand _ => 1 + operand.height
  | binary _ left right _ => 1 + max left.height right.height
  | call _ arguments _ => 1 + maxHeight arguments

/-- The height of the highest of some expressions. -/
def maxHeight : List Expr → Nat
  | [] => 0
  | e :: es => max e.height (maxHeight es)

end

/-- A binary node is one higher than the higher one of its operands. -/
theorem height_binary (op : BinaryOperator) (left right : Expr) (position : Position) :
    (binary op left right position).height = max left.height right.height + 1 := by
  rw [height, Nat.add_comm]

end Expr

/-- Statements.  A conditional has its branches in source order, each with its condition and body,
and perhaps a body for when none of them applies. -/
inductive Statement
  | assignment (name : String) (value : Expr) (position : Position)
  | expression (value : Expr) (position : Position)
  | print (values : List Expr) (position : Position)
  | conditional (branches : List (Expr × List Statement)) (otherwise : Option (List Statement))
      (position : Position)
  | loop (condition : Expr) (body : List Statement) (position : Position)
  | termination (position : Position)
  | invalid (complaint : Diagnostic ParseError)

/-- The place a statement starts. -/
def Statement.position : Statement → Position
  | assignment _ _ p | expression _ p | print _ p | conditional _ _ p | loop _ _ p
  | termination p => p
  | invalid complaint => complaint.position

end DarjaLang
