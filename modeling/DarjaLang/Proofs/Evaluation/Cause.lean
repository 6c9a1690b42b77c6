import DarjaLang.Evaluation.Statement
import DarjaLang.Proofs.Syntax.Parts

/-!
# Why an evaluation fails

Operators, functions and variables fail because of the values they are given.  What goes wrong with
a loop or with a line is of another kind, and no expression fails for it.

* `EvalError.OfOperands` and `EvalError.OfName` are the causes of the first kind, and `FailsWith`
  says that a computation fails for no others.  There is one lemma for each operation that raises a
  cause.
* `Expr.Blames` says that an expression fails because of one of its nodes, and `Expr.blames_of_eval`
  and `Expr.blames_of_holds` are the result for expressions and for conditions.
* `Statement.run_of_isAction` and `Statement.run_of_isSimple` say what becomes of statements that
  contain no others.
-/

set_option autoImplicit false

namespace DarjaLang

/-- What a function may say that it expects. -/
def Builtin.expectations : List String :=
  ["a number", "numbers", "a string", "a number or string", "a number, string or boolean"]

namespace EvalError

/-- The cause is a value, or that there is none. -/
def OfValues : EvalError → Prop
  | iterationLimit _ | unparsed _ => False
  | _ => True

/-- The cause is the values of some operands or arguments. -/
def OfOperands : EvalError → Prop
  | typeMismatch (.argument function expected _) =>
    (∃ b : Builtin, function = b.name) ∧ expected ∈ Builtin.expectations
  | invalidArgument (.negativeRoot v) => v.isNumeric = true
  | unboundVariable _ | unknownFunction _ | argumentCount _ _ _ | iterationLimit _
  | unparsed _ => False
  | _ => True

/-- The cause is what the name stands for. -/
def OfName (name : String) : EvalError → Prop
  | unboundVariable other | unknownFunction other | argumentCount other _ _ => other = name
  | _ => False

theorem OfOperands.ofValues {e : EvalError} (h : e.OfOperands) : e.OfValues := by
  cases e with
  | iterationLimit => exact h
  | unparsed => exact h
  | _ => trivial

theorem OfName.ofValues {e : EvalError} {name : String} (h : e.OfName name) : e.OfValues := by
  cases e with
  | iterationLimit => exact h
  | unparsed => exact h
  | _ => trivial

end EvalError

/-- A computation fails for no other causes. -/
def FailsWith {ε α : Type} (P : ε → Prop) (x : Except ε α) : Prop := ∀ e, x = .error e → P e

namespace FailsWith

variable {ε α β : Type} {P : ε → Prop}

theorem ok (a : α) : FailsWith P (.ok a) := nofun

theorem mono {Q : ε → Prop} {x : Except ε α} (hx : FailsWith P x) (h : ∀ e, P e → Q e) :
    FailsWith Q x := fun e he => h e (hx e he)

theorem error {e : ε} (he : P e) : FailsWith P (.error e : Except ε α) := by
  intro e' h
  cases h
  exact he

theorem bind {x : Except ε α} {f : α → Except ε β} (hx : FailsWith P x)
    (hf : ∀ a, FailsWith P (f a)) : FailsWith P (x >>= f) := by
  cases x with
  | error e => exact error (hx e rfl)
  | ok a => exact hf a

theorem map {x : Except ε α} (f : α → β) (hx : FailsWith P x) : FailsWith P (x.map f) := by
  cases x with
  | error e => exact error (hx e rfl)
  | ok a => exact ok (f a)

theorem mapM {f : α → Except ε β} (hf : ∀ a, FailsWith P (f a)) (as : List α) :
    FailsWith P (as.mapM f) := by
  induction as with
  | nil => exact ok []
  | cons a as ih =>
    rw [List.mapM_cons]
    exact (hf a).bind fun b => ih.bind fun bs => ok (b :: bs)

end FailsWith

/-! ## Values -/

namespace Value

theorem failsWith_ofInt? (n : Int) : FailsWith EvalError.OfOperands (ofInt? n) := by
  rw [ofInt?]
  split
  · exact .ok _
  · exact .error trivial

theorem failsWith_ofLiteral? (v : Literal) : FailsWith EvalError.OfOperands (ofLiteral? v) := by
  cases v with
  | integer digits =>
    rw [ofLiteral?]
    split
    · exact .ok _
    · exact .error trivial
  | _ => exact .ok _

theorem failsWith_toFloat? (v : Value) : FailsWith EvalError.OfOperands v.toFloat? := by
  cases v with
  | float x => exact .ok x
  | integer n =>
    rw [toFloat?]
    split
    · exact .ok _
    · exact .error trivial
  | _ => exact .error trivial

theorem failsWith_toBoolean? (v : Value) : FailsWith EvalError.OfOperands v.toBoolean? := by
  cases v with
  | boolean b => exact .ok b
  | _ => exact .error trivial

theorem failsWith_truncate? (x : Float) : FailsWith EvalError.OfOperands (truncate? x) := by
  rw [truncate?]
  split
  · exact .error trivial
  · dsimp only
    split
    · exact .error trivial
    · exact .ok _

end Value

theorem Environment.failsWith_lookup (env : Environment) (name : String) :
    FailsWith (EvalError.OfName name) (env.lookup name) := by
  rw [lookup]
  split
  · exact .ok _
  · exact .error rfl

/-! ## Operators -/

theorem Arithmetic.failsWith_onIntegers (op : Arithmetic) (a b : Int) :
    FailsWith EvalError.OfOperands (op.onIntegers a b) := by
  cases op with
  | add => exact Value.failsWith_ofInt? _
  | subtract => exact Value.failsWith_ofInt? _
  | multiply => exact Value.failsWith_ofInt? _
  | divide =>
    rw [onIntegers]
    split
    · exact .error trivial
    · exact Value.failsWith_ofInt? _
  | remainder =>
    rw [onIntegers]
    split
    · exact .error trivial
    · exact (Value.failsWith_ofInt? _).bind fun _ => Value.failsWith_ofInt? _

theorem Arithmetic.failsWith_onFloats (op : Arithmetic) (x y : Float) :
    FailsWith EvalError.OfOperands (op.onFloats x y) := by
  rw [onFloats]
  split
  · exact .error trivial
  · dsimp only
    split
    · exact .error trivial
    · exact .ok _

theorem Arithmetic.failsWith_apply (op : Arithmetic) (a b : Value) :
    FailsWith EvalError.OfOperands (op.apply a b) := by
  rw [apply.eq_def]
  split
  · exact failsWith_onIntegers op _ _
  split
  · exact .ok _
  split
  · exact (Value.failsWith_toFloat? a).bind fun x =>
      (Value.failsWith_toFloat? b).bind fun y => failsWith_onFloats op x y
  · exact .error trivial

theorem Comparison.failsWith_order? (op : Comparison) (a b : Value) :
    FailsWith EvalError.OfOperands (op.order? a b) := by
  rw [order?.eq_def]
  split
  · exact .ok _
  · exact .ok _
  split
  · exact (Value.failsWith_toFloat? a).bind fun _ =>
      (Value.failsWith_toFloat? b).bind fun _ => .ok _
  · exact .error trivial

theorem Comparison.failsWith_apply (op : Comparison) (a b : Value) :
    FailsWith EvalError.OfOperands (op.apply a b) := by
  rw [apply.eq_def]
  split
  · exact .ok _
  · exact .ok _
  · exact (failsWith_order? op a b).bind fun _ => .ok _

theorem Connective.failsWith_apply (op : Connective) (a b : Value) :
    FailsWith EvalError.OfOperands (op.apply a b) :=
  (Value.failsWith_toBoolean? a).bind fun _ => (Value.failsWith_toBoolean? b).bind fun _ => .ok _

theorem BinaryOperator.failsWith_apply (op : BinaryOperator) (a b : Value) :
    FailsWith EvalError.OfOperands (op.apply a b) := by
  cases op with
  | arithmetic op => exact op.failsWith_apply a b
  | comparison op => exact op.failsWith_apply a b
  | connective op => exact op.failsWith_apply a b

theorem UnaryOperator.failsWith_apply (op : UnaryOperator) (v : Value) :
    FailsWith EvalError.OfOperands (op.apply v) := by
  rw [apply.eq_def]
  split
  · exact Value.failsWith_ofInt? _
  · exact .ok _
  · exact .error trivial
  · exact (Value.failsWith_toBoolean? v).bind fun _ => .ok _

/-! ## Functions -/

theorem Builtin.ofOperands_wrongType (b : Builtin) {expected : String}
    (h : expected ∈ Builtin.expectations) (v : Value) : (b.wrongType expected v).OfOperands :=
  ⟨⟨b, rfl⟩, h⟩

theorem Extremum.failsWith_apply (e : Extremum) (b : Builtin) (first : Value)
    (rest : List Value) : FailsWith EvalError.OfOperands (e.apply b.name first rest) := by
  rw [apply]
  split
  · exact .error (b.ofOperands_wrongType (by decide) _)
  split
  · exact .ok _
  · exact (Value.failsWith_toFloat? first).bind fun _ =>
      (FailsWith.mapM Value.failsWith_toFloat? rest).bind fun _ => .ok _

namespace Builtin

theorem failsWith_absoluteValue (v : Value) : FailsWith EvalError.OfOperands (absoluteValue v) := by
  cases v with
  | integer n => exact Value.failsWith_ofInt? _
  | float x => exact .ok _
  | _ => exact .error (abs.ofOperands_wrongType (by decide) _)

theorem failsWith_squareRoot (v : Value) : FailsWith EvalError.OfOperands (squareRoot v) := by
  rw [squareRoot]
  split
  · next hnumeric =>
    refine (Value.failsWith_toFloat? v).bind fun x => ?_
    split
    · exact .error hnumeric
    · exact .ok _
  · exact .error (sqrt.ofOperands_wrongType (by decide) v)

theorem failsWith_toInteger (v : Value) : FailsWith EvalError.OfOperands (toInteger v) := by
  cases v with
  | float x => exact Value.failsWith_truncate? x
  | string s =>
    rw [toInteger]
    split
    · exact .ok _
    · exact .error trivial
  | walou => exact .error (int.ofOperands_wrongType (by decide) _)
  | _ => exact .ok _

theorem failsWith_toFloating (v : Value) : FailsWith EvalError.OfOperands (toFloating v) := by
  rw [toFloating.eq_def]
  split
  · split
    · exact .ok _
    · exact .error trivial
  · split
    · exact (Value.failsWith_toFloat? v).map _
    · exact .error (float.ofOperands_wrongType (by decide) v)

theorem failsWith_length (v : Value) : FailsWith EvalError.OfOperands (length v) := by
  cases v with
  | string s => exact Value.failsWith_ofInt? _
  | _ => exact .error (len.ofOperands_wrongType (by decide) _)

theorem failsWith_apply (b : Builtin) (first : Value) (rest : List Value) :
    FailsWith EvalError.OfOperands (b.apply first rest) := by
  cases b with
  | abs => exact failsWith_absoluteValue first
  | sqrt => exact failsWith_squareRoot first
  | int => exact failsWith_toInteger first
  | float => exact failsWith_toFloating first
  | str => exact .ok _
  | len => exact failsWith_length first
  | type => exact .ok _
  | min => exact Extremum.failsWith_apply _ min first rest
  | max => exact Extremum.failsWith_apply _ max first rest

end Builtin

theorem failsWith_callFunction (name : String) (arguments : List Value) :
    FailsWith (fun e => e.OfOperands ∨ e.OfName name) (callFunction name arguments) := by
  rw [callFunction]
  split
  · exact .error (.inr rfl)
  split
  · exact .error (.inr rfl)
  split
  · exact (Builtin.failsWith_apply _ _ _).mono fun _ => .inl
  · exact .error (.inr rfl)

/-! ## Expressions -/

/-- The trouble is with a value. -/
def Trouble.OfValues (e : Trouble) : Prop := e.cause.OfValues

namespace Expr

/-- The trouble arises at the node, and any name that it is about is that of the node. -/
def Raises (node : Expr) (e : Trouble) : Prop :=
  e.position = node.position ∧
    (e.cause.OfOperands ∨ ∃ name, node.name? = some name ∧ e.cause.OfName name)

/-- The trouble arises at a node of the expression. -/
def Blames (e : Expr) (trouble : Trouble) : Prop :=
  ∃ node : Expr, node.Within e ∧ node.Raises trouble

theorem Blames.ofValues {e : Expr} {trouble : Trouble} (h : e.Blames trouble) :
    trouble.OfValues := by
  obtain ⟨node, -, -, hcause | ⟨name, -, hcause⟩⟩ := h
  · exact hcause.ofValues
  · exact hcause.ofValues

theorem Blames.mono {e whole : Expr} {trouble : Trouble}
    (hwithin : ∀ node : Expr, node.Within e → node.Within whole) (h : e.Blames trouble) :
    whole.Blames trouble := by
  obtain ⟨node, hnode, hraises⟩ := h
  exact ⟨node, hwithin node hnode, hraises⟩

/-- An operation on values fails at the node that asks for it. -/
theorem blames_of_operands (e : Expr) {α : Type} {x : Except EvalError α}
    (hx : FailsWith EvalError.OfOperands x) : FailsWith e.Blames (locate e.position x) := by
  cases x with
  | error cause => exact .error ⟨e, .here, rfl, .inl (hx cause rfl)⟩
  | ok a => exact .ok a

/-- What a name stands for fails at the node that has the name. -/
theorem blames_of_name {e : Expr} {name : String} (hname : e.name? = some name) {α : Type}
    {x : Except EvalError α}
    (hx : FailsWith (fun cause => cause.OfOperands ∨ cause.OfName name) x) :
    FailsWith e.Blames (locate e.position x) := by
  cases x with
  | error cause =>
    refine .error ⟨e, .here, rfl, (hx cause rfl).imp_right fun hcause => ?_⟩
    exact ⟨name, hname, hcause⟩
  | ok a => exact .ok a

mutual

/-- **Expressions fail because of values, and at one of their nodes.** -/
theorem blames_of_eval (env : Environment) : (e : Expr) → FailsWith e.Blames (e.eval env)
  | .literal v position => by
    rw [eval]
    exact blames_of_operands _ (Value.failsWith_ofLiteral? v)
  | .var name position => by
    rw [eval]
    exact blames_of_name rfl ((env.failsWith_lookup name).mono fun _ => .inr)
  | .unary op operand position => by
    rw [eval]
    exact ((blames_of_eval env operand).mono fun _ => .mono fun _ => .unary).bind fun v =>
      blames_of_operands _ (op.failsWith_apply v)
  | .binary (.connective op) left right position => by
    rw [eval]
    refine ((blames_of_eval env left).mono fun _ => .mono fun _ => .left).bind fun a => ?_
    refine (blames_of_operands _ a.failsWith_toBoolean?).bind fun p => ?_
    split
    · exact .ok _
    · exact ((blames_of_eval env right).mono fun _ => .mono fun _ => .right).bind fun b =>
        blames_of_operands _ (op.failsWith_apply a b)
  | .binary (.arithmetic op) left right position => by
    rw [eval]
    · exact ((blames_of_eval env left).mono fun _ => .mono fun _ => .left).bind fun a =>
        ((blames_of_eval env right).mono fun _ => .mono fun _ => .right).bind fun b =>
          blames_of_operands _ (BinaryOperator.failsWith_apply (.arithmetic op) a b)
    · nofun
  | .binary (.comparison op) left right position => by
    rw [eval]
    · exact ((blames_of_eval env left).mono fun _ => .mono fun _ => .left).bind fun a =>
        ((blames_of_eval env right).mono fun _ => .mono fun _ => .right).bind fun b =>
          blames_of_operands _ (BinaryOperator.failsWith_apply (.comparison op) a b)
    · nofun
  | .call name arguments position => by
    rw [eval]
    refine ((blames_of_evalAll env arguments).mono fun _ ⟨e, he, hblames⟩ => ?_).bind fun vs =>
      blames_of_name rfl (failsWith_callFunction name vs)
    exact hblames.mono fun node => .argument he

theorem blames_of_evalAll (env : Environment) :
    (es : List Expr) → FailsWith (fun trouble => ∃ e ∈ es, e.Blames trouble) (evalAll env es)
  | [] => by
    rw [evalAll]
    exact .ok []
  | e :: es => by
    rw [evalAll]
    refine ((blames_of_eval env e).mono fun _ h => ⟨e, List.mem_cons_self, h⟩).bind fun v => ?_
    refine ((blames_of_evalAll env es).mono fun _ ⟨e', he', h⟩ => ?_).bind fun vs => .ok (v :: vs)
    exact ⟨e', List.mem_cons_of_mem e he', h⟩

end

/-- Conditions fail because of values. -/
theorem blames_of_holds (env : Environment) (condition : Expr) :
    FailsWith condition.Blames (condition.holds env) :=
  (blames_of_eval env condition).bind fun v => blames_of_operands _ v.failsWith_toBoolean?

end Expr

/-! ## Simple statements -/

namespace Statement

variable {limit : Option UInt64} {bound : Nat} {st : Statement}

/-- An action fails because of one of its expressions and has changed nothing, or the program goes
on, perhaps with one more line printed. -/
theorem run_of_isAction (h : st.IsAction) (s : State) :
    (∃ e : Trouble, (∃ x ∈ st.expressions, x.Blames e) ∧
        run limit bound st s = some ⟨.error e, s⟩) ∨
      ∃ v s', run limit bound st s = some ⟨.ok (.next v), s'⟩ ∧
        s.printed.toList <+: s'.printed.toList := by
  cases st with
  | assignment name value position =>
    rw [run]
    cases heval : value.eval s.env with
    | error e =>
      have hblames := Expr.blames_of_eval s.env value e heval
      exact .inl ⟨e, ⟨value, List.mem_singleton_self value, hblames⟩, rfl⟩
    | ok v => exact .inr ⟨_, _, rfl, List.prefix_rfl⟩
  | expression value position =>
    rw [run]
    cases heval : value.eval s.env with
    | error e =>
      have hblames := Expr.blames_of_eval s.env value e heval
      exact .inl ⟨e, ⟨value, List.mem_singleton_self value, hblames⟩, rfl⟩
    | ok v => exact .inr ⟨_, _, rfl, List.prefix_rfl⟩
  | print values position =>
    rw [run]
    cases heval : Expr.evalAll s.env values with
    | error e => exact .inl ⟨e, Expr.blames_of_evalAll s.env values e heval, rfl⟩
    | ok vs =>
      refine .inr ⟨_, _, rfl, ?_⟩
      rw [Array.toList_push]
      exact List.prefix_append _ _
  | _ => exact h.elim

/-- The evaluation of a simple statement ends.  It takes no printed line back, and it does not fail
at a limit. -/
theorem run_of_isSimple (h : st.IsSimple) (s : State) :
    ∃ o, run limit bound st s = some o ∧ s.printed.toList <+: o.state.printed.toList ∧
      ∀ e n, o.result = .error e → e.cause ≠ .iterationLimit n := by
  rcases h.cases with haction | ⟨position, rfl⟩ | ⟨complaint, rfl⟩
  · rcases run_of_isAction haction s with ⟨e, ⟨x, -, hblames⟩, hrun⟩ | ⟨v, s', hrun, hprinted⟩
    · refine ⟨_, hrun, List.prefix_rfl, fun e' n hresult hcause => ?_⟩
      cases hresult
      have hvalues := hblames.ofValues
      rw [Trouble.OfValues, hcause] at hvalues
      exact hvalues
    · exact ⟨_, hrun, hprinted, fun e n hresult => by cases hresult⟩
  · exact ⟨_, by rw [run], List.prefix_rfl, fun e n hresult => by cases hresult⟩
  · refine ⟨_, by rw [run], List.prefix_rfl, fun e n hresult hcause => ?_⟩
    cases hresult
    cases hcause

end Statement

end DarjaLang
