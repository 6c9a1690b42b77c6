import DarjaLang.Proofs.Evaluation.Course
import DarjaLang.Proofs.Grammar.Statement.Nodes
import DarjaLang.Proofs.Token.FloatLiteral
import DarjaLang.Proofs.Value.Finite

/-!
# Finite floats stay finite

Neither infinity nor NaN comes out of an evaluation unless it has been put in, and a program text
has only one way to put it in: a literal that is too large for a double.

* `Expr.LiteralsFinite` and `Statement.LiteralsFinite` say that no literal puts it in.
* `Statement.Prints` is the run of simple statements once more, with the values behind the lines
  that are printed.  One statement keeps everything finite (`isFinite_of_isSimple`), and so do all
  of them (`Prints.isFinite`).
* `Statement.exists_token_of_literal`: a float literal of a text that has been read is finite, or
  the text has too large a number for it.
* `finite_in_finite_out` is the result.
-/

set_option autoImplicit false

namespace DarjaLang

open Grammar

/-- All floats that are bound to names are finite. -/
def Environment.IsFinite (env : Environment) : Prop :=
  ∀ name v, env.get? name = some v → v.IsFinite

theorem Environment.isFinite_assign {env : Environment} (henv : env.IsFinite) (name : String)
    {v : Value} (hv : v.IsFinite) : (env.assign name v).IsFinite := by
  intro other w hw
  rw [get?_assign] at hw
  split at hw
  · cases hw
    exact hv
  · exact henv other w hw

theorem Environment.gives_isFinite_lookup {env : Environment} (henv : env.IsFinite)
    (name : String) : Gives Value.IsFinite (env.lookup name) := by
  rw [lookup]
  split
  · next v hv => exact .ok (henv name v hv)
  · exact .error _

/-! ## Expressions -/

/-- The literal is no float, or a finite one. -/
def Literal.IsFinite : Literal → Prop
  | float x => x.isFinite = true
  | _ => True

theorem Value.gives_isFinite_ofLiteral? {v : Literal} (hv : v.IsFinite) :
    Gives IsFinite (ofLiteral? v) := by
  cases v with
  | integer digits =>
    rw [ofLiteral?]
    split
    · exact .ok trivial
    · exact .error _
  | float x => exact .ok hv
  | _ => exact .ok trivial

theorem Gives.locate {α : Type} {P : α → Prop} {x : Except EvalError α} (hx : Gives P x)
    (position : Position) : Gives P (DarjaLang.locate position x) := by
  cases x with
  | error e => exact error _
  | ok a => exact ok (hx a rfl)

namespace Expr

variable {env : Environment}

/-- All float literals in the expression are finite. -/
def LiteralsFinite (e : Expr) : Prop :=
  ∀ v position, (Expr.literal v position).Within e → v.IsFinite

theorem LiteralsFinite.mono {e part : Expr} (h : e.LiteralsFinite)
    (hwithin : ∀ {node : Expr}, node.Within part → node.Within e) : part.LiteralsFinite :=
  fun v position hv => h v position (hwithin hv)

mutual

/-- **Expressions have finite values.** -/
theorem gives_isFinite_eval (henv : env.IsFinite) :
    (e : Expr) → e.LiteralsFinite → Gives Value.IsFinite (e.eval env)
  | .literal v position, h => by
    rw [eval]
    exact (Value.gives_isFinite_ofLiteral? (h v position .here)).locate position
  | .var name position, _ => by
    rw [eval]
    exact (Environment.gives_isFinite_lookup henv name).locate position
  | .unary op operand position, h => by
    rw [eval]
    exact (gives_isFinite_eval henv operand (h.mono .unary)).bind fun v hv =>
      (op.gives_isFinite_apply hv).locate position
  | .binary (.connective op) left right position, _ => by
    rw [eval]
    refine .bind_of_forall fun a => .bind_of_forall fun p => ?_
    split
    · exact .ok trivial
    · exact .bind_of_forall fun b => (op.gives_isFinite_apply a b).locate position
  | .binary (.arithmetic op) left right position, h => by
    rw [eval]
    · exact (gives_isFinite_eval henv left (h.mono .left)).bind fun a ha =>
        (gives_isFinite_eval henv right (h.mono .right)).bind fun b hb =>
          (op.gives_isFinite_apply ha hb).locate position
    · nofun
  | .binary (.comparison op) left right position, _ => by
    rw [eval]
    · exact .bind_of_forall fun a => .bind_of_forall fun b =>
        (op.gives_isFinite_apply a b).locate position
    · nofun
  | .call name arguments position, h => by
    rw [eval]
    exact (gives_isFinite_evalAll henv arguments fun e he => h.mono (.argument he)).bind
      fun vs hvs => (gives_isFinite_callFunction name hvs).locate position

theorem gives_isFinite_evalAll (henv : env.IsFinite) :
    (es : List Expr) → (∀ e ∈ es, e.LiteralsFinite) →
      Gives (fun vs => ∀ v ∈ vs, v.IsFinite) (evalAll env es)
  | [], _ => by
    rw [evalAll]
    exact .ok nofun
  | e :: es, h => by
    rw [List.forall_mem_cons] at h
    rw [evalAll]
    exact (gives_isFinite_eval henv e h.1).bind fun v hv =>
      (gives_isFinite_evalAll henv es h.2).bind fun vs hvs =>
        .ok (List.forall_mem_cons.2 ⟨hv, hvs⟩)

end

end Expr

/-! ## Statements -/

namespace Statement

variable {limit : Option UInt64} {st inner : Statement} {done : List Statement}
  {work work₁ : List Task} {s s' s₁ : State} {v : Option Value}

/-- All float literals in the statement are finite. -/
def LiteralsFinite (st : Statement) : Prop :=
  ∀ inner : Statement, Part inner st → ∀ e ∈ inner.expressions, e.LiteralsFinite

/-- The values that a statement prints itself: those of one line, or none. -/
def shown (env : Environment) : Statement → List (List Value)
  | print values _ => (Expr.evalAll env values).toOption.toList
  | _ => []

/-- The line that is printed for some values. -/
def printedLine (vs : List Value) : String := " ".intercalate (vs.map Value.text)

/-- Simple statements are evaluated one after the other, and these are the values that they print,
for each line those behind it. -/
inductive Prints (limit : Option UInt64) :
    List Statement → State → List (List Value) → State → Prop
  | nil {s : State} : Prints limit [] s [] s
  | cons {st : Statement} {v : Option Value} {done : List Statement} {s s₁ s' : State}
      {later : List (List Value)} (h : Evaluates limit st s ⟨.ok (.next v), s₁⟩)
      (hrest : Prints limit done s₁ later s') :
      Prints limit (st :: done) s (st.shown s.env ++ later) s'

theorem Steps.exists_prints (h : Steps limit work s done work₁ s₁) :
    ∃ shown, Prints limit done s shown s₁ := by
  induction h with
  | refl => exact ⟨[], .nil⟩
  | step hstep _ ih =>
    obtain ⟨later, hlater⟩ := ih
    cases hstep with
    | simple _ h => exact ⟨_, .cons h hlater⟩
    | _ => exact ⟨later, hlater⟩

/-- A simple statement with which the program goes on assigns a value, leaves one or prints
some. -/
theorem cases_of_isSimple (hst : st.IsSimple) (h : Evaluates limit st s ⟨.ok (.next v), s'⟩) :
    (∃ name e position w, st = .assignment name e position ∧ e.eval s.env = .ok w ∧
        s' = ⟨s.env.assign name w, s.printed⟩) ∨
      (∃ e position, st = .expression e position ∧ s' = s) ∨
      ∃ es position vs, st = .print es position ∧ Expr.evalAll s.env es = .ok vs ∧
        s' = ⟨s.env, s.printed.push (printedLine vs)⟩ := by
  obtain ⟨bound, h⟩ := h
  cases st with
  | assignment name e position =>
    rw [run] at h
    cases heval : e.eval s.env with
    | error trouble => rw [heval] at h; cases h
    | ok w =>
      rw [heval] at h
      cases h
      exact .inl ⟨name, e, position, w, rfl, heval, rfl⟩
  | expression e position =>
    rw [run] at h
    cases heval : e.eval s.env with
    | error trouble => rw [heval] at h; cases h
    | ok w =>
      rw [heval] at h
      cases h
      exact .inr (.inl ⟨e, position, rfl, rfl⟩)
  | print es position =>
    rw [run] at h
    cases heval : Expr.evalAll s.env es with
    | error trouble => rw [heval] at h; cases h
    | ok vs =>
      rw [heval] at h
      cases h
      exact .inr (.inr ⟨es, position, vs, rfl, heval, rfl⟩)
  | termination | invalid => rw [run] at h; cases h
  | conditional | loop => exact hst.elim

/-- **A simple statement keeps the variables finite and prints finite values.** -/
theorem isFinite_of_isSimple (hst : st.IsSimple)
    (hliterals : ∀ e ∈ st.expressions, e.LiteralsFinite) (henv : s.env.IsFinite)
    (h : Evaluates limit st s ⟨.ok (.next v), s'⟩) :
    s'.env.IsFinite ∧ (∀ vs ∈ st.shown s.env, ∀ w ∈ vs, w.IsFinite) ∧
      s'.printed.toList = s.printed.toList ++ (st.shown s.env).map printedLine := by
  obtain ⟨name, e, position, w, rfl, heval, rfl⟩ | ⟨e, position, rfl, rfl⟩ |
    ⟨es, position, vs, rfl, heval, rfl⟩ := cases_of_isSimple hst h
  · have hw := Expr.gives_isFinite_eval henv e (hliterals e (List.mem_singleton_self e)) w heval
    exact ⟨Environment.isFinite_assign henv name hw, nofun, by simp [shown]⟩
  · exact ⟨henv, nofun, by simp [shown]⟩
  · have hvs := Expr.gives_isFinite_evalAll henv es hliterals vs heval
    have hshown : (Statement.print es position).shown s.env = [vs] := by
      rw [shown, heval]
      rfl
    rw [hshown]
    exact ⟨henv, List.forall_mem_singleton.2 hvs, by simp⟩

/-- **And so do simple statements in order.** -/
theorem Prints.isFinite {shown : List (List Value)} (h : Prints limit done s shown s')
    (hdone : ∀ inner ∈ done, inner.IsSimple ∧ ∀ e ∈ inner.expressions, e.LiteralsFinite)
    (henv : s.env.IsFinite) :
    s'.env.IsFinite ∧ (∀ vs ∈ shown, ∀ w ∈ vs, w.IsFinite) ∧
      s'.printed.toList = s.printed.toList ++ shown.map printedLine := by
  induction h with
  | nil => exact ⟨henv, nofun, by simp⟩
  | cons h _ ih =>
    obtain ⟨⟨hst, hliterals⟩, hrest⟩ := List.forall_mem_cons.1 hdone
    obtain ⟨henv₁, hshown, hprinted⟩ := isFinite_of_isSimple hst hliterals henv h
    obtain ⟨henv', hlater, hprinted'⟩ := ih hrest henv₁
    refine ⟨henv', List.forall_mem_append.2 ⟨hshown, hlater⟩, ?_⟩
    rw [hprinted', hprinted, List.map_append, List.append_assoc]

/-- A value that is left is finite. -/
theorem isFinite_of_evaluates (hst : st.LiteralsFinite) (henv : s.env.IsFinite) {w : Value}
    (h : Evaluates limit st s ⟨.ok (.next (some w)), s'⟩) : w.IsFinite := by
  obtain ⟨bound, h⟩ := h
  obtain ⟨e, position, rfl, heval, -⟩ := eq_expression_of_run h
  exact Expr.gives_isFinite_eval henv e (hst _ .rfl e (List.mem_singleton_self e)) w heval

/-! ## Texts -/

/-- **A float literal of a text is a finite double, or it stands in the text with a number that is
too large for one.** -/
theorem exists_token_of_literal {text : String} {number : ℕ} {e : Expr} {x : Float}
    {position : Position}
    (hinner : Part inner (ofTokens (Token.scan text number))) (he : e ∈ inner.expressions)
    (hx : (Expr.literal (.float x) position).Within e) :
    ∃ t ∈ Token.scan text number, t.position = position ∧ ∃ q, t.Denotes q ∧
      Binary64.FiniteUnlessLarge .positive q x := by
  cases hread : ofTokens? (Token.scan text number) with
  | error complaint =>
    rw [ofTokens_eq_invalid_iff.2 hread] at hinner
    rcases hinner.cases with rfl | ⟨st, hst, -⟩
    · cases he
    · cases hst
  | ok st =>
    rw [(ofTokens_valid_iff.2 hread).1] at hinner
    obtain ⟨t, ht, hheads⟩ := (writtenIn_of_ofTokens? hread inner hinner).2 e he _ hx
    exact ⟨t, ht, hheads.position, Token.exists_denotes ht (hheads.literal _ _ rfl)⟩

/-- **Finite in, finite out.**  If the float literals of a statement and the floats in its
environment are finite, so are, however the evaluation ends, the floats in the environment that it
leaves, the value that it leaves, and the values behind the lines that it prints on its course.  No
operator and no function makes anything else of finite values.  And a float literal of a text is
finite unless its number is half way from the greatest double to `2 ^ 1024` or beyond that, in
which case it is infinity. -/
theorem finite_in_finite_out :
    (∀ (limit : Option UInt64) (st : Statement) (s : State) (o : Outcome),
      st.LiteralsFinite → s.env.IsFinite → Evaluates limit st s o →
        o.state.env.IsFinite ∧ (∀ v, o.result = .ok (.next (some v)) → v.IsFinite) ∧
        ∃ done work shown, Steps limit [.statement st] s done work o.state ∧
          Halts limit work o.state o.result ∧ Prints limit done s shown o.state ∧
          (∀ vs ∈ shown, ∀ v ∈ vs, v.IsFinite) ∧
          o.state.printed.toList = s.printed.toList ++ shown.map printedLine) ∧
    (∀ (op : BinaryOperator) (a b v : Value), a.IsFinite → b.IsFinite → op.apply a b = .ok v →
      v.IsFinite) ∧
    (∀ (op : UnaryOperator) (a v : Value), a.IsFinite → op.apply a = .ok v → v.IsFinite) ∧
    (∀ (name : String) (arguments : List Value) (v : Value), (∀ a ∈ arguments, a.IsFinite) →
      callFunction name arguments = .ok v → v.IsFinite) ∧
    ∀ (text : String) (number : ℕ) (inner : Statement) (e : Expr) (x : Float) (position : Position),
      Part inner (ofTokens (Token.scan text number)) → e ∈ inner.expressions →
      (Expr.literal (.float x) position).Within e →
        ∃ t ∈ Token.scan text number, t.position = position ∧ ∃ q, t.Denotes q ∧
          (q < 2 ^ 1024 - 2 ^ 970 ∧ x.isFinite = true ∨
            2 ^ 1024 - 2 ^ 970 ≤ q ∧ x = Binary64.pack (.infinity .positive)) := by
  refine ⟨fun limit st s o hst henv h => ?_, fun op a b v ha hb => op.gives_isFinite_apply ha hb v,
    fun op a v ha => op.gives_isFinite_apply ha v,
    fun name arguments v h => gives_isFinite_callFunction name h v,
    fun text number inner e x position => exists_token_of_literal⟩
  obtain ⟨done, work, hsteps, hhalts⟩ := exists_steps h
  have hparts := hsteps.simple_parts (List.forall_mem_singleton.2 .rfl)
  obtain ⟨shown, hprints⟩ := hsteps.exists_prints
  obtain ⟨henv', hshown, hprinted⟩ := hprints.isFinite
    (fun inner hinner => ⟨(hparts inner hinner).1, hst inner (hparts inner hinner).2⟩) henv
  refine ⟨henv', fun v hv => ?_, done, work, shown, hsteps, hhalts, hprints, hshown, hprinted⟩
  obtain ⟨result, s'⟩ := o
  cases hv
  exact isFinite_of_evaluates hst henv h

/-- A product of finite numbers that is not too large. -/
theorem finite_in_finite_out_product :
    ∃ st : Statement, st = .expression (.binary (.arithmetic .multiply)
        (.literal (.float 1.5) ⟨1, 1⟩) (.literal (.float 2.0) ⟨1, 7⟩) ⟨1, 5⟩) ⟨1, 1⟩ ∧
      st.LiteralsFinite ∧ Environment.empty.IsFinite ∧
      Evaluates none st ⟨.empty, #[]⟩
        ⟨.ok (.next (some (.float (1.5 * 2.0)))), ⟨.empty, #[]⟩⟩ ∧
      (Value.float (1.5 * 2.0)).IsFinite := by
  refine ⟨_, rfl, ?_⟩
  generalize hst : Statement.expression _ _ = st
  have hliterals : st.LiteralsFinite := by
    subst hst
    intro inner hinner e he v position hv
    rcases hinner.cases with rfl | ⟨_, hbody, -⟩
    · obtain rfl := List.mem_singleton.1 he
      cases hv with
      | left h =>
        cases h
        show (1.5 : Float).isFinite = true
        decide
      | right h =>
        cases h
        show (2.0 : Float).isFinite = true
        decide
    · cases hbody
  have henv : Environment.empty.IsFinite := fun name v hv => by simp at hv
  have heval : Evaluates none st ⟨.empty, #[]⟩
      ⟨.ok (.next (some (.float (1.5 * 2.0)))), ⟨.empty, #[]⟩⟩ := by
    subst hst
    exact ⟨0, by rw [run]; rfl⟩
  exact ⟨hliterals, henv, heval,
    (finite_in_finite_out.1 none _ _ _ hliterals henv heval).2.1 _ rfl⟩

end Statement

end DarjaLang
