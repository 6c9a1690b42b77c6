import DarjaLang.Token.Basic

/-!
# Braces in a token list

Whether a line leaves a block open is decided by looking at its braces alone.

* `Token.balance` counts opening braces minus closing ones.
* `Token.openBraces` matches braces with a stack and lists what is left open, the innermost first.
  A closing brace without a partner is passed over.
* `Token.outermostOpen?` is the first brace that is never closed.
* `Token.isSentinelLine` recognises a line that holds `khlas` and nothing else.
-/

set_option autoImplicit false

namespace DarjaLang

namespace Token

/-- What one token adds to the balance. -/
def weight (t : Token) : Int :=
  match t.kind with
  | .leftBrace => 1
  | .rightBrace => -1
  | _ => 0

/-- Opening braces minus closing braces. -/
def balance (ts : List Token) : Int := ts.foldr (fun t total => t.weight + total) 0

@[simp] theorem balance_nil : balance [] = 0 := rfl

@[simp] theorem balance_cons (t : Token) (ts : List Token) :
    balance (t :: ts) = t.weight + balance ts := rfl

@[simp] theorem balance_append (ts us : List Token) :
    balance (ts ++ us) = balance ts + balance us := by
  induction ts with
  | nil => simp
  | cons t ts ih => simp only [List.cons_append, balance_cons, ih, Int.add_assoc]

/-- The stack of open braces after one more token. -/
def pushBrace (stack : List Position) (t : Token) : List Position :=
  match t.kind with
  | .leftBrace => t.position :: stack
  | .rightBrace => stack.tail
  | _ => stack

/-- The braces that a token list leaves open, innermost first. -/
def openBraces (ts : List Token) : List Position := ts.foldl pushBrace []

/-- The outermost brace that a token list leaves open. -/
def outermostOpen? (ts : List Token) : Option Position := (openBraces ts).getLast?

/-- The line says `khlas` and nothing more. -/
def isSentinelLine : List Token → Bool
  | t :: rest =>
    match t.kind with
    | .keyword .khlas => rest.all isTerminator
    | _ => false
  | [] => false

end Token

end DarjaLang
