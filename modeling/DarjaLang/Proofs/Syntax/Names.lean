import DarjaLang.Proofs.Syntax.Parts

/-!
# The variables of a program

Names of functions are no variables: a call has the variables of its arguments and no others.

* `Expr.Mentions` says that a name is a variable of an expression.
* `Statement.Assigns` and `Statement.Mentions` say that a name is assigned somewhere in a statement,
  and that it is a variable of the statement at all.
-/

set_option autoImplicit false

namespace DarjaLang

namespace Expr

variable {name other : String} {e left right : Expr} {position : Position}

/-- The name is a variable of the expression. -/
def Mentions (name : String) (e : Expr) : Prop :=
  ∃ position, (Expr.var name position).Within e

@[simp] theorem mentions_literal (v : Literal) : ¬ (literal v position).Mentions name := by
  rintro ⟨_, h⟩
  cases h

@[simp] theorem mentions_var : (var other position).Mentions name ↔ name = other := by
  constructor
  · rintro ⟨_, h⟩
    cases h
    rfl
  · rintro rfl
    exact ⟨position, .here⟩

@[simp] theorem mentions_unary (op : UnaryOperator) :
    (unary op e position).Mentions name ↔ e.Mentions name := by
  constructor
  · rintro ⟨p, h⟩
    cases h with
    | unary h => exact ⟨p, h⟩
  · exact fun ⟨p, h⟩ => ⟨p, .unary h⟩

@[simp] theorem mentions_binary (op : BinaryOperator) :
    (binary op left right position).Mentions name ↔
      left.Mentions name ∨ right.Mentions name := by
  constructor
  · rintro ⟨p, h⟩
    cases h with
    | left h => exact .inl ⟨p, h⟩
    | right h => exact .inr ⟨p, h⟩
  · rintro (⟨p, h⟩ | ⟨p, h⟩)
    · exact ⟨p, .left h⟩
    · exact ⟨p, .right h⟩

/-- The name of a function is not mentioned. -/
@[simp] theorem mentions_call (function : String) (arguments : List Expr) :
    (call function arguments position).Mentions name ↔ ∃ e ∈ arguments, e.Mentions name := by
  constructor
  · rintro ⟨p, h⟩
    cases h with
    | argument he h => exact ⟨_, he, p, h⟩
  · exact fun ⟨_, he, p, h⟩ => ⟨p, .argument he h⟩

end Expr

namespace Statement

variable {name : String} {st inner : Statement}

/-- The name is assigned by the statement or inside it. -/
def Assigns (name : String) (st : Statement) : Prop :=
  ∃ value position, Part (.assignment name value position) st

/-- The name is assigned or is a variable of an expression, by the statement or inside it. -/
def Mentions (name : String) (st : Statement) : Prop :=
  st.Assigns name ∨ ∃ inner, Part inner st ∧ ∃ e ∈ inner.expressions, e.Mentions name

/-- A variable is assigned by the statement itself, belongs to one of its own expressions, or occurs
in one of its bodies. -/
theorem Mentions.cases (h : st.Mentions name) :
    (∃ value position, st = .assignment name value position) ∨
      (∃ e ∈ st.expressions, e.Mentions name) ∨
        ∃ inner, InBodyOf inner st ∧ inner.Mentions name := by
  rcases h with ⟨value, position, hpart⟩ | ⟨inner, hpart, hinner⟩
  · rcases hpart.cases with rfl | ⟨st', hst', hpart⟩
    · exact .inl ⟨value, position, rfl⟩
    · exact .inr (.inr ⟨st', hst', .inl ⟨value, position, hpart⟩⟩)
  · rcases hpart.cases with rfl | ⟨st', hst', hpart⟩
    · exact .inr (.inl hinner)
    · exact .inr (.inr ⟨st', hst', .inr ⟨inner, hpart, hinner⟩⟩)

end Statement

end DarjaLang
