import DarjaLang.Proofs.Evaluation.Steps
import DarjaLang.Proofs.Syntax.Relocation

/-!
# Evaluation does not look at places

Places are only passed on, to the trouble that an evaluation may end in.  A relocated statement
therefore does the same as before, with its trouble relocated.

* `Expr.eval_relocate` and `Statement.relocates_run` are the results.
-/

set_option autoImplicit false

namespace DarjaLang

open Located

variable {f : Position → Position} {env : Environment}

/-! ## Expressions -/

/-- Two steps are relocated one by one. -/
theorem mapError_bind {α β : Type} {h : Trouble → Trouble} {x : Except Trouble α}
    {g : α → Except Trouble β} :
    (x >>= g).mapError h = x.mapError h >>= fun a => (g a).mapError h := by
  cases x <;> rfl

theorem locate_relocate {α : Type} (position : Position) (x : Except EvalError α) :
    locate (f position) x = (locate position x).mapError (relocate f) := by
  cases x <;> rfl

namespace Expr

mutual

/-- A relocated expression has the same value, or relocated trouble. -/
theorem eval_relocate : (e : Expr) →
    (relocate f e).eval env = (e.eval env).mapError (relocate f)
  | .literal value position => by
    change eval env (.literal value (f position)) = _
    rw [eval, eval, locate_relocate]
  | .var name position => by
    change eval env (.var name (f position)) = _
    rw [eval, eval, locate_relocate]
  | .unary op operand position => by
    change eval env (.unary op (relocate f operand) (f position)) = _
    rw [eval, eval, eval_relocate operand, mapError_bind]
    simp only [locate_relocate]
  | .binary op left right position => by
    have hleft := eval_relocate left
    have hright := eval_relocate right
    change eval env (.binary op (relocate f left) (relocate f right) (f position)) = _
    cases op with
    | connective op =>
      rw [eval, eval, hleft, hright, mapError_bind]
      refine congrArg _ (funext fun a => ?_)
      rw [locate_relocate, mapError_bind]
      refine congrArg _ (funext fun p => ?_)
      split
      · rfl
      · rw [mapError_bind]
        simp only [locate_relocate]
    | _ =>
      rw [eval, eval, hleft, hright, mapError_bind]
      · simp only [locate_relocate, mapError_bind]
      all_goals nofun
  | .call name arguments position => by
    rw [relocate_call, eval, eval, evalAll_relocate arguments, mapError_bind]
    simp only [locate_relocate]

theorem evalAll_relocate : (es : List Expr) →
    evalAll env (relocate f es) = (evalAll env es).mapError (relocate f)
  | [] => by
    rw [relocate_nil, evalAll]
    rfl
  | e :: es => by
    rw [relocate_cons, evalAll, evalAll, eval_relocate e, evalAll_relocate es, mapError_bind]
    simp only [mapError_bind]
    rfl

end

theorem holds_relocate (condition : Expr) :
    (relocate f condition).holds env = (condition.holds env).mapError (relocate f) := by
  rw [holds, holds, eval_relocate, mapError_bind, position_relocate]
  simp only [locate_relocate]

end Expr

/-! ## Statements -/

/-- How a relocated statement ends. -/
instance : Located Outcome := ⟨fun f o => ⟨o.result.mapError (relocate f), o.state⟩⟩

namespace Statement

/-- The second evaluation does what the first one does, with relocated trouble. -/
def Relocates (f : Position → Position) (run run' : State → Option Outcome) : Prop :=
  ∀ s, run' s = relocate f (run s)

variable {limit : Option UInt64} {bound count : Nat} {position : Position} {condition : Expr}
  {run₁ run₁' run₂ run₂' : State → Option Outcome}

theorem relocates_skip : Relocates f skip skip := fun _ => rfl

theorem relocates_stopAt (n : UInt64) :
    Relocates f (stopAt n position) (stopAt n (f position)) := fun _ => rfl

theorem Relocates.andThen (h₁ : Relocates f run₁ run₁') (h₂ : Relocates f run₂ run₂') :
    Relocates f (andThen run₁ run₂) (andThen run₁' run₂') := by
  intro s
  rw [Statement.andThen, Statement.andThen, h₁]
  cases run₁ s with
  | none => rfl
  | some o =>
    obtain ⟨result, s'⟩ := o
    cases result with
    | error e => rfl
    | ok flow =>
      cases flow with
      | terminate => rfl
      | next v => exact h₂ s'

theorem Relocates.choose (h₁ : Relocates f run₁ run₁') (h₂ : Relocates f run₂ run₂') :
    Relocates f (choose condition run₁ run₂)
      (choose (relocate f condition) run₁' run₂') := by
  intro s
  rw [Statement.choose, Statement.choose, Expr.holds_relocate]
  cases condition.holds s.env with
  | error e => rfl
  | ok b =>
    cases b with
    | false => exact h₂ s
    | true => exact h₁ s

theorem Relocates.runLoop (h : Relocates f run₁ run₁') :
    Relocates f (runLoop limit position condition run₁ bound count)
      (runLoop limit (f position) (relocate f condition) run₁' bound count) := by
  induction bound generalizing count with
  | zero => exact fun _ => rfl
  | succ bound ih =>
    rw [runLoop_succ, runLoop_succ]
    refine .choose ?_ relocates_skip
    cases reachedLimit? limit count with
    | some n => exact relocates_stopAt n
    | none => exact h.andThen ih

mutual

/-- **A relocated statement does what it did before**, and its trouble is relocated. -/
theorem relocates_run : (st : Statement) →
    Relocates f (run limit bound st) (run limit bound (relocate f st))
  | .assignment name value position => fun s => by
    change run limit bound (.assignment name (relocate f value) (f position)) s = _
    rw [run, run, Expr.eval_relocate]
    cases value.eval s.env <;> rfl
  | .expression value position => fun s => by
    change run limit bound (.expression (relocate f value) (f position)) s = _
    rw [run, run, Expr.eval_relocate]
    cases value.eval s.env <;> rfl
  | .print values position => fun s => by
    change run limit bound (.print (relocate f values) (f position)) s = _
    rw [run, run, Expr.evalAll_relocate]
    cases Expr.evalAll s.env values <;> rfl
  | .conditional branches none position => by
    rw [relocate_conditional, run_conditional, run_conditional, relocate_none, runOtherwise_none]
    exact relocates_runBranches branches relocates_skip
  | .conditional branches (some body) position => by
    rw [relocate_conditional, run_conditional, run_conditional, relocate_some, runOtherwise_some,
      runOtherwise_some]
    exact relocates_runBranches branches (relocates_runBlock body)
  | .loop condition body position => by
    rw [relocate_loop, run_loop, run_loop]
    exact (relocates_runBlock body).runLoop
  | .termination position => fun _ => rfl
  | .invalid complaint => fun _ => rfl

theorem relocates_runBlock : (body : List Statement) →
    Relocates f (runBlock limit bound body) (runBlock limit bound (relocate f body))
  | [] => by
    rw [relocate_nil, runBlock_nil]
    exact relocates_skip
  | st :: body => by
    rw [relocate_cons, runBlock_cons, runBlock_cons]
    exact (relocates_run st).andThen (relocates_runBlock body)

theorem relocates_runBranches : (branches : List (Expr × List Statement)) →
    {otherwise otherwise' : State → Option Outcome} → Relocates f otherwise otherwise' →
    Relocates f (runBranches limit bound branches otherwise)
      (runBranches limit bound (relocate f branches) otherwise')
  | [], _, _, h => by
    rw [relocate_nil, runBranches_nil, runBranches_nil]
    exact h
  | (condition, body) :: branches, _, _, h => by
    rw [relocate_cons, relocate_mk, runBranches_cons, runBranches_cons]
    exact (relocates_runBlock body).choose (relocates_runBranches branches h)

end

end Statement

end DarjaLang
