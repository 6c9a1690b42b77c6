import DarjaLang.Evaluation.Expression
import DarjaLang.Proofs.Syntax.Parts

/-!
# Evaluation of every operand

A connective does not look at its right operand if the left one decides it.  The evaluation that
always looks at both fails more often, but where it has a value the two agree.

* `Expr.evalStrict` evaluates both operands of every operator.
* `Expr.eval_connective_eq_ok_iff` and `Expr.evalStrict_connective_eq_ok_iff` say when a connective
  has a value.  Connectives are defined twice, by the truth value that decides them and by what they
  make of two truth values, and `Connective.join_eq` is where the two meet.
* `Expr.evalStrict_eq_ok_iff`: every operand can be evaluated if the expression has a value and,
  besides, the right operand of every connective in it is a truth value.
* `Expr.short_circuit_agrees` is the result.
-/

set_option autoImplicit false

namespace DarjaLang

/-- Unless the left truth value decides a connective, the right one is what it makes of both. -/
theorem Connective.join_eq (c : Connective) (a b : Bool) :
    c.join a b = if a = c.deciding then a else b := by
  cases c <;> cases a <;> rfl

theorem Value.toBoolean?_eq_ok_iff {v : Value} {b : Bool} :
    v.toBoolean? = .ok b ↔ v = boolean b := by
  cases v <;> simp [toBoolean?]

theorem locate_eq_ok_iff {α : Type} {x : Except EvalError α} {position : Position} {a : α} :
    locate position x = .ok a ↔ x = .ok a := by
  cases x <;> simp [locate]

theorem Connective.apply_eq_ok_iff {op : Connective} {v w u : Value} :
    op.apply v w = .ok u ↔
      ∃ a b, v = .boolean a ∧ w = .boolean b ∧ u = .boolean (op.join a b) := by
  simp only [apply, bind_eq_ok, Value.toBoolean?_eq_ok_iff, pure, Except.pure, Except.ok.injEq,
    eq_comm (b := u)]
  simp

namespace Expr

variable {env : Environment} {op : Connective} {left right : Expr} {position : Position} {v : Value}

mutual

/-- The value of an expression if the operands of connectives are evaluated like those of other
operators, the left one and then the right one. -/
def evalStrict (env : Environment) : Expr → Except Trouble Value
  | .literal value position => locate position (Value.ofLiteral? value)
  | .var name position => locate position (env.lookup name)
  | .unary op operand position => do
    let v ← operand.evalStrict env
    locate position (op.apply v)
  | .binary op left right position => do
    let a ← left.evalStrict env
    let b ← right.evalStrict env
    locate position (op.apply a b)
  | .call name arguments position => do
    let vs ← evalAllStrict env arguments
    locate position (callFunction name vs)

/-- The values of some expressions, evaluated in this way. -/
def evalAllStrict (env : Environment) : List Expr → Except Trouble (List Value)
  | [] => .ok []
  | e :: es => do
    let v ← e.evalStrict env
    let vs ← evalAllStrict env es
    return v :: vs

end

/-! ## Connectives -/

/-- If the left operand does not decide a connective, an error of the right one is its error. -/
theorem eval_connective_of_error {f : Trouble} (h : left.eval env = .ok (.boolean !op.deciding))
    (hright : right.eval env = .error f) :
    (binary (.connective op) left right position).eval env = .error f := by
  rw [eval, h]
  simp [bind, Except.bind, Value.toBoolean?, locate, hright]

/-- **When a connective has a value**: it is that of the operand that settles it. -/
theorem eval_connective_eq_ok_iff :
    (binary (.connective op) left right position).eval env = .ok v ↔
      ∃ a, left.eval env = .ok (.boolean a) ∧
        (a = op.deciding ∧ v = .boolean a ∨
          a ≠ op.deciding ∧ ∃ b, right.eval env = .ok (.boolean b) ∧ v = .boolean b) := by
  simp only [eval, bind_eq_ok, locate_eq_ok_iff, Value.toBoolean?_eq_ok_iff]
  constructor
  · rintro ⟨_, hleft, a, rfl, h⟩
    refine ⟨a, hleft, ?_⟩
    by_cases ha : a = op.deciding
    · rw [if_pos ha] at h
      exact .inl ⟨ha, (Except.ok.inj h).symm⟩
    · rw [if_neg ha] at h
      obtain ⟨w, hright, h⟩ := bind_eq_ok.1 h
      obtain ⟨_, b, ⟨rfl⟩, rfl, rfl⟩ := Connective.apply_eq_ok_iff.1 (locate_eq_ok_iff.1 h)
      exact .inr ⟨ha, b, hright, by rw [op.join_eq, if_neg ha]⟩
  · rintro ⟨a, hleft, h⟩
    refine ⟨_, hleft, a, rfl, ?_⟩
    rcases h with ⟨ha, rfl⟩ | ⟨ha, b, hright, rfl⟩
    · rw [if_pos ha]
      rfl
    · rw [if_neg ha]
      refine bind_eq_ok.2 ⟨_, hright, locate_eq_ok_iff.2 ?_⟩
      exact Connective.apply_eq_ok_iff.2 ⟨a, b, rfl, rfl, by rw [op.join_eq, if_neg ha]⟩

theorem eval_connective_of_deciding (h : left.eval env = .ok (.boolean op.deciding)) :
    (binary (.connective op) left right position).eval env = .ok (.boolean op.deciding) :=
  eval_connective_eq_ok_iff.2 ⟨op.deciding, h, .inl ⟨rfl, rfl⟩⟩

theorem evalStrict_connective_eq_ok_iff :
    (binary (.connective op) left right position).evalStrict env = .ok v ↔
      ∃ a b, left.evalStrict env = .ok (.boolean a) ∧ right.evalStrict env = .ok (.boolean b) ∧
        v = .boolean (op.join a b) := by
  simp only [evalStrict, bind_eq_ok, locate_eq_ok_iff, BinaryOperator.apply,
    Connective.apply_eq_ok_iff]
  constructor
  · rintro ⟨_, hleft, _, hright, a, b, rfl, rfl, hv⟩
    exact ⟨a, b, hleft, hright, hv⟩
  · rintro ⟨a, b, hleft, hright, hv⟩
    exact ⟨_, hleft, _, hright, a, b, rfl, rfl, hv⟩

/-! ## Both evaluations -/

/-- Operators that are no connectives evaluate both operands. -/
theorem eval_binary_of_ne {op : BinaryOperator} (hop : ∀ c, op ≠ .connective c) :
    (binary op left right position).eval env =
      (do
        let a ← left.eval env
        let b ← right.eval env
        locate position (op.apply a b)) := by
  rw [eval]
  exact hop

/-- The right operand of every connective in the expression is a truth value. -/
def JoinsTruths (env : Environment) (e : Expr) : Prop :=
  ∀ op left right position, Within (binary (.connective op) left right position) e →
    ∃ b, right.eval env = .ok (.boolean b)

theorem joinsTruths_literal (value : Literal) : JoinsTruths env (literal value position) :=
  fun _ _ _ _ h => by cases h

theorem joinsTruths_var (name : String) : JoinsTruths env (var name position) :=
  fun _ _ _ _ h => by cases h

theorem joinsTruths_unary {op : UnaryOperator} {operand : Expr} :
    JoinsTruths env (unary op operand position) ↔ JoinsTruths env operand :=
  ⟨fun h op l r p hw => h op l r p (.unary hw), fun h op l r p hw => by
    cases hw with
    | unary hw => exact h op l r p hw⟩

theorem joinsTruths_binary {op : BinaryOperator} :
    JoinsTruths env (binary op left right position) ↔
      JoinsTruths env left ∧ JoinsTruths env right ∧
        ∀ c, op = .connective c → ∃ b, right.eval env = .ok (.boolean b) := by
  constructor
  · refine fun h => ⟨fun c l r p hw => h c l r p (.left hw),
      fun c l r p hw => h c l r p (.right hw), ?_⟩
    rintro c rfl
    exact h c left right position .here
  · rintro ⟨hleft, hright, h⟩ c l r p hw
    cases hw with
    | here => exact h c rfl
    | left hw => exact hleft c l r p hw
    | right hw => exact hright c l r p hw

theorem joinsTruths_call {name : String} {arguments : List Expr} :
    JoinsTruths env (call name arguments position) ↔ ∀ e ∈ arguments, JoinsTruths env e :=
  ⟨fun h e he op l r p hw => h op l r p (.argument he hw), fun h op l r p hw => by
    cases hw with
    | argument he hw => exact h _ he op l r p hw⟩

theorem evalStrict_binary_of_operands {op : BinaryOperator} (hop : ∀ c, op ≠ .connective c)
    (hl : ∀ u, left.evalStrict env = .ok u ↔ left.eval env = .ok u ∧ JoinsTruths env left)
    (hr : ∀ u, right.evalStrict env = .ok u ↔ right.eval env = .ok u ∧ JoinsTruths env right) :
    (binary op left right position).evalStrict env = .ok v ↔
      (binary op left right position).eval env = .ok v ∧
        JoinsTruths env (binary op left right position) := by
  rw [eval_binary_of_ne hop]
  simp only [evalStrict, bind_eq_ok, hl, hr, joinsTruths_binary]
  constructor
  · rintro ⟨a, ⟨hleft, hl⟩, b, ⟨hright, hr⟩, h⟩
    exact ⟨⟨a, hleft, b, hright, h⟩, hl, hr, fun c hc => absurd hc (hop c)⟩
  · rintro ⟨⟨a, hleft, b, hright, h⟩, hl, hr, -⟩
    exact ⟨a, ⟨hleft, hl⟩, b, ⟨hright, hr⟩, h⟩

theorem evalStrict_connective_of_operands
    (hl : ∀ u, left.evalStrict env = .ok u ↔ left.eval env = .ok u ∧ JoinsTruths env left)
    (hr : ∀ u, right.evalStrict env = .ok u ↔ right.eval env = .ok u ∧ JoinsTruths env right) :
    (binary (.connective op) left right position).evalStrict env = .ok v ↔
      (binary (.connective op) left right position).eval env = .ok v ∧
        JoinsTruths env (binary (.connective op) left right position) := by
  rw [evalStrict_connective_eq_ok_iff, eval_connective_eq_ok_iff, joinsTruths_binary]
  simp only [hl, hr, op.join_eq]
  constructor
  · rintro ⟨a, b, ⟨hleft, hl⟩, ⟨hright, hr⟩, rfl⟩
    refine ⟨⟨a, hleft, ?_⟩, hl, hr, fun _ _ => ⟨b, hright⟩⟩
    by_cases ha : a = op.deciding
    · exact .inl ⟨ha, by rw [if_pos ha]⟩
    · exact .inr ⟨ha, b, hright, by rw [if_neg ha]⟩
  · rintro ⟨⟨a, hleft, h⟩, hl, hr, htruth⟩
    obtain ⟨b, hright⟩ := htruth op rfl
    refine ⟨a, b, ⟨hleft, hl⟩, ⟨hright, hr⟩, ?_⟩
    rcases h with ⟨ha, rfl⟩ | ⟨ha, b', hright', rfl⟩
    · rw [if_pos ha]
    · rw [if_neg ha]
      exact Except.ok.inj (hright'.symm.trans hright)

mutual

/-- **Where every operand can be evaluated, this gives the same value.**  It can be done if there
is a value and the right operands of all connectives are truth values, those that are not looked at
included. -/
theorem evalStrict_eq_ok_iff : (e : Expr) → (v : Value) →
    (e.evalStrict env = .ok v ↔ e.eval env = .ok v ∧ JoinsTruths env e)
  | .literal value _, v => by
    rw [evalStrict, eval, and_iff_left (joinsTruths_literal value)]
  | .var name _, v => by
    rw [evalStrict, eval, and_iff_left (joinsTruths_var name)]
  | .unary op operand _, v => by
    simp only [evalStrict, eval, bind_eq_ok, evalStrict_eq_ok_iff operand, joinsTruths_unary]
    exact ⟨fun ⟨u, ⟨hu, htruths⟩, h⟩ => ⟨⟨u, hu, h⟩, htruths⟩,
      fun ⟨⟨u, hu, h⟩, htruths⟩ => ⟨u, ⟨hu, htruths⟩, h⟩⟩
  | .binary op left right _, v => by
    have hl := evalStrict_eq_ok_iff left
    have hr := evalStrict_eq_ok_iff right
    cases op with
    | connective op => exact evalStrict_connective_of_operands hl hr
    | arithmetic => exact evalStrict_binary_of_operands nofun hl hr
    | comparison => exact evalStrict_binary_of_operands nofun hl hr
  | .call name arguments _, v => by
    simp only [evalStrict, eval, bind_eq_ok, evalAllStrict_eq_ok_iff arguments,
      joinsTruths_call]
    exact ⟨fun ⟨u, ⟨hu, htruths⟩, h⟩ => ⟨⟨u, hu, h⟩, htruths⟩,
      fun ⟨⟨u, hu, h⟩, htruths⟩ => ⟨u, ⟨hu, htruths⟩, h⟩⟩

theorem evalAllStrict_eq_ok_iff : (es : List Expr) → (vs : List Value) →
    (evalAllStrict env es = .ok vs ↔ evalAll env es = .ok vs ∧ ∀ e ∈ es, JoinsTruths env e)
  | [], vs => by
    simp [evalAllStrict, evalAll]
  | e :: es, vs => by
    simp only [evalAllStrict, evalAll, bind_eq_ok, evalStrict_eq_ok_iff e,
      evalAllStrict_eq_ok_iff es, List.forall_mem_cons]
    constructor
    · rintro ⟨v, ⟨hv, he⟩, ws, ⟨hws, hes⟩, h⟩
      exact ⟨⟨v, hv, ws, hws, h⟩, he, hes⟩
    · rintro ⟨⟨v, hv, ws, hws, h⟩, he, hes⟩
      exact ⟨v, ⟨hv, he⟩, ws, ⟨hws, hes⟩, h⟩

end

/-- An expression that has no value, whatever the variables are. -/
theorem exists_eval_ne_ok (env : Environment) : ∃ e : Expr, ∀ v, e.eval env ≠ .ok v := by
  refine ⟨call "" [] ⟨1, 1⟩, fun v h => ?_⟩
  have herror : eval env (call "" [] ⟨1, 1⟩) = .error ⟨.unknownFunction "", ⟨1, 1⟩⟩ := rfl
  cases herror.symm.trans h

/-- **Connectives that look at their right operand only if they have to are the usual connectives.**
An evaluation of all operands has a value if the evaluation has the same value and the right
operand of each connective is a truth value.  If a connective has a value, this is a truth value,
and the right operand has no part in it if and only if the left one decides the connective.  This is
the only case in which an error of the right operand is not an error of the connective. -/
theorem short_circuit_agrees (env : Environment) :
    (∀ (e : Expr) (v : Value),
      e.evalStrict env = .ok v ↔ e.eval env = .ok v ∧ JoinsTruths env e) ∧
    ∀ (op : Connective) (left right : Expr) (position : Position),
      let joined := fun right => binary (.connective op) left right position
      (∀ v, (joined right).eval env = .ok v → ∃ b, v = .boolean b) ∧
      (∀ v, (joined right).eval env = .ok v →
        ((∀ other, (joined other).eval env = .ok v) ↔
          left.eval env = .ok (.boolean op.deciding))) ∧
      ∀ f, right.eval env = .error f →
        ((∃ v, (joined right).eval env = .ok v) ↔ left.eval env = .ok (.boolean op.deciding)) ∧
        (left.eval env = .ok (.boolean !op.deciding) → (joined right).eval env = .error f) := by
  refine ⟨evalStrict_eq_ok_iff, fun op left right position => ⟨fun v h => ?_, fun v h => ?_,
    fun f hright => ⟨?_, fun h => eval_connective_of_error h hright⟩⟩⟩
  · obtain ⟨a, -, ⟨-, rfl⟩ | ⟨-, b, -, rfl⟩⟩ := eval_connective_eq_ok_iff.1 h
    · exact ⟨a, rfl⟩
    · exact ⟨b, rfl⟩
  · constructor
    · intro hall
      -- an operand without a value can only stand where it is not looked at
      obtain ⟨e, he⟩ := exists_eval_ne_ok env
      obtain ⟨a, hleft, ⟨rfl, -⟩ | ⟨-, b, hb, -⟩⟩ := eval_connective_eq_ok_iff.1 (hall e)
      · exact hleft
      · exact absurd hb (he _)
    · intro hleft other
      rw [eval_connective_of_deciding hleft, ← h, eval_connective_of_deciding hleft]
  · constructor
    · rintro ⟨v, h⟩
      obtain ⟨a, hleft, ⟨rfl, -⟩ | ⟨-, b, hb, -⟩⟩ := eval_connective_eq_ok_iff.1 h
      · exact hleft
      · cases hright.symm.trans hb
    · exact fun hleft => ⟨_, eval_connective_of_deciding hleft⟩

/-- A variable that is not bound does no harm on the right of `sah ||`, unless every operand is
evaluated; on the right of `sah &&` it always does. -/
theorem short_circuit_agrees_unbound :
    let sah := literal (.boolean true) ⟨1, 1⟩
    let x := var "x" ⟨1, 8⟩
    let trouble : Trouble := ⟨.unboundVariable "x", ⟨1, 8⟩⟩
    x.eval .empty = .error trouble ∧
      (binary (.connective .or) sah x ⟨1, 5⟩).eval .empty = .ok (.boolean true) ∧
      (∀ v, (binary (.connective .or) sah x ⟨1, 5⟩).evalStrict .empty ≠ .ok v) ∧
      (binary (.connective .and) sah x ⟨1, 5⟩).eval .empty = .error trouble := by
  intro sah x trouble
  obtain ⟨hstrict, hconnective⟩ := short_circuit_agrees .empty
  have hx : x.eval .empty = .error trouble := rfl
  refine ⟨hx, ?_, fun v h => ?_, ((hconnective .and sah x ⟨1, 5⟩).2.2 trouble hx).2 rfl⟩
  · obtain ⟨v, hv⟩ := ((hconnective .or sah x ⟨1, 5⟩).2.2 trouble hx).1.2 rfl
    have hall := (((hconnective .or sah x ⟨1, 5⟩).2.1 v hv).2 rfl) sah
    rw [hv, ← hall]
    rfl
  · obtain ⟨b, hb⟩ := ((hstrict _ v).1 h).2 .or sah x ⟨1, 5⟩ .here
    cases hx.symm.trans hb

end Expr

end DarjaLang
