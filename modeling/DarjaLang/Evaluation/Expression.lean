import DarjaLang.Builtin
import DarjaLang.Environment
import DarjaLang.Value.Operation

/-!
# Evaluating expressions

Operands and arguments are evaluated from left to right, and the first failure is the result.  A
connective whose left operand decides it does not look at the right one.
-/

set_option autoImplicit false

namespace DarjaLang

/-- The value of a variable. -/
def Environment.lookup (env : Environment) (name : String) : Except EvalError Value :=
  match env.get? name with
  | some v => .ok v
  | none => .error (.unboundVariable name)

namespace Expr

mutual

/-- The value of an expression. -/
def eval (env : Environment) : Expr → Except Trouble Value
  | .literal value position => locate position (Value.ofLiteral? value)
  | .var name position => locate position (env.lookup name)
  | .unary op operand position => do
    let v ← operand.eval env
    locate position (op.apply v)
  | .binary (.connective op) left right position => do
    let a ← left.eval env
    let p ← locate position a.toBoolean?
    if p = op.deciding then return .boolean p
    let b ← right.eval env
    locate position (op.apply a b)
  | .binary op left right position => do
    let a ← left.eval env
    let b ← right.eval env
    locate position (op.apply a b)
  | .call name arguments position => do
    let vs ← evalAll env arguments
    locate position (callFunction name vs)

/-- The values of some expressions. -/
def evalAll (env : Environment) : List Expr → Except Trouble (List Value)
  | [] => .ok []
  | e :: es => do
    let v ← e.eval env
    let vs ← evalAll env es
    return v :: vs

end

/-- Whether a condition holds.  A value that is no truth value is reported at the condition. -/
def holds (env : Environment) (condition : Expr) : Except Trouble Bool := do
  let v ← condition.eval env
  locate condition.position v.toBoolean?

end Expr

end DarjaLang
