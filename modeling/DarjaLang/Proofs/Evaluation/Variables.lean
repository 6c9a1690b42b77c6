import DarjaLang.Proofs.Evaluation.Bound
import DarjaLang.Proofs.Syntax.Names

/-!
# What an evaluation reads

An evaluation reads the variables that the program mentions and nothing else of the environment.

* `Expr.eval_congr`: an expression has the same value in environments that agree on its variables.
* `Statement.Matches` relates evaluations that do the same from states that only differ in other
  variables.  It is kept by the ways in which evaluations are put together, as far as the conditions
  have no such variables (`congruentOn_matches`).
* `Statement.depends_on_mentioned` is the result.
-/

set_option autoImplicit false

namespace DarjaLang

namespace Environment

/-- The environments bind the names to the same values, or both do not bind them. -/
def AgreeOn (N : String → Prop) (env env' : Environment) : Prop :=
  ∀ name, N name → env.get? name = env'.get? name

variable {N M : String → Prop} {env env' : Environment}

theorem AgreeOn.symm (h : AgreeOn N env env') : AgreeOn N env' env :=
  fun name hname => (h name hname).symm

theorem AgreeOn.mono (h : AgreeOn N env env') (hMN : ∀ name, M name → N name) :
    AgreeOn M env env' :=
  fun name hname => h name (hMN name hname)

/-- Environments that agree still do so when both are assigned the same. -/
theorem AgreeOn.assign (h : AgreeOn N env env') (name : String) (v : Value) :
    AgreeOn N (env.assign name v) (env'.assign name v) := by
  intro other hother
  rw [get?_assign, get?_assign, h other hother]

end Environment

open Environment

/-! ## Expressions -/

namespace Expr

variable {env env' : Environment}

/-- The environments agree on the variables of the expression. -/
def Agree (env env' : Environment) (e : Expr) : Prop := AgreeOn (Mentions · e) env env'

mutual

/-- **An expression only reads its variables.** -/
theorem eval_congr : (e : Expr) → e.Agree env env' → e.eval env = e.eval env'
  | .literal _ _, _ => by
    rw [eval, eval]
  | .var name _, h => by
    rw [eval, eval, Environment.lookup, Environment.lookup, h name (mentions_var.2 rfl)]
  | .unary op operand _, h => by
    rw [eval, eval, eval_congr operand (h.mono fun _ => (mentions_unary op).2)]
  | .binary op left right _, h => by
    have hleft := eval_congr left (h.mono fun _ hl => (mentions_binary op).2 (.inl hl))
    have hright := eval_congr right (h.mono fun _ hr => (mentions_binary op).2 (.inr hr))
    cases op with
    | connective op => rw [eval, eval, hleft, hright]
    | _ =>
      rw [eval, eval, hleft, hright]
      all_goals nofun
  | .call function arguments _, h => by
    have harguments := evalAll_congr arguments fun e he =>
      h.mono fun _ hname => (mentions_call function arguments).2 ⟨e, he, hname⟩
    rw [eval, eval, harguments]

theorem evalAll_congr : (es : List Expr) → (∀ e ∈ es, e.Agree env env') →
    evalAll env es = evalAll env' es
  | [], _ => by
    rw [evalAll, evalAll]
  | e :: es, h => by
    rw [List.forall_mem_cons] at h
    rw [evalAll, evalAll, eval_congr e h.1, evalAll_congr es h.2]

end

theorem holds_congr {condition : Expr} (h : condition.Agree env env') :
    condition.holds env = condition.holds env' := by
  rw [holds, holds, eval_congr condition h]

end Expr

/-! ## Statements -/

/-- The states are the same up to variables with other names. -/
structure State.AlikeOn (N : String → Prop) (s s' : State) : Prop where
  env : AgreeOn N s.env s'.env
  printed : s.printed = s'.printed

/-- The outcomes are the same up to variables with other names. -/
structure Outcome.AlikeOn (N : String → Prop) (o o' : Outcome) : Prop where
  result : o.result = o'.result
  state : o.state.AlikeOn N o'.state

namespace Statement

variable {N : String → Prop} {limit : Option UInt64} {bound count : Nat} {position : Position}
  {condition : Expr} {f f' g g' : State → Option Outcome} {st : Statement} {s s' : State}
  {o o' : Outcome}

/-- From states that are alike the two evaluations come to outcomes that are alike, or both do not
end. -/
def Matches (N : String → Prop) (f f' : State → Option Outcome) : Prop :=
  ∀ s s', s.AlikeOn N s' → Option.Rel (Outcome.AlikeOn N) (f s) (f' s')

/-- The expression has no variables with other names. -/
def ReadsOnly (N : String → Prop) (e : Expr) : Prop := ∀ name, e.Mentions name → N name

theorem matches_skip : Matches N skip skip := fun _ _ h => .some ⟨rfl, h⟩

theorem matches_stopAt (n : UInt64) (position : Position) :
    Matches N (stopAt n position) (stopAt n position) := fun _ _ h => .some ⟨rfl, h⟩

theorem Matches.andThen (hf : Matches N f f') (hg : Matches N g g') :
    Matches N (andThen f g) (andThen f' g') := by
  intro s s' h
  have hfirst := hf s s' h
  rw [Statement.andThen, Statement.andThen]
  generalize f s = r, f' s' = r' at hfirst
  cases hfirst with
  | none => exact .none
  | @some o o' ho =>
    obtain ⟨result, s₁⟩ := o
    obtain ⟨_, s₁'⟩ := o'
    obtain ⟨rfl, hstate⟩ := ho
    rcases result with e | v | _
    · exact .some ⟨rfl, hstate⟩
    · exact hg s₁ s₁' hstate
    · exact .some ⟨rfl, hstate⟩

theorem Matches.choose (hcondition : ReadsOnly N condition) (hf : Matches N f f')
    (hg : Matches N g g') : Matches N (choose condition f g) (choose condition f' g') := by
  intro s s' h
  rw [Statement.choose, Statement.choose, Expr.holds_congr (h.env.mono hcondition)]
  rcases condition.holds s'.env with e | _ | _
  · exact .some ⟨rfl, h⟩
  · exact hg s s' h
  · exact hf s s' h

theorem Matches.runLoop (hcondition : ReadsOnly N condition) (hf : Matches N f f') :
    Matches N (runLoop limit position condition f bound count)
      (runLoop limit position condition f' bound count) := by
  induction bound generalizing count with
  | zero => exact fun _ _ _ => .none
  | succ bound ih =>
    rw [runLoop_succ, runLoop_succ]
    refine .choose hcondition ?_ matches_skip
    cases reachedLimit? limit count with
    | some n => exact matches_stopAt n position
    | none => exact hf.andThen ih

theorem congruentOn_matches (N : String → Prop) (limit : Option UInt64) (bound : Nat) :
    CongruentOn (ReadsOnly N) limit limit bound bound (Matches N) where
  skip := matches_skip
  andThen := .andThen
  choose hcondition _ _ _ _ := .choose hcondition
  loop _ hcondition _ _ hf := hf.runLoop hcondition

theorem matches_of_isSimple (hsimple : st.IsSimple) (h : ∀ e ∈ st.expressions, ReadsOnly N e) :
    Matches N (run limit bound st) (run limit bound st) := by
  intro s s' hs
  cases st with
  | assignment name value _ =>
    have hvalue := h value (List.mem_singleton_self value)
    rw [run, run, Expr.eval_congr value (hs.env.mono hvalue)]
    rcases value.eval s'.env with e | v
    · exact .some ⟨rfl, hs⟩
    · exact .some ⟨rfl, hs.env.assign name v, hs.printed⟩
  | expression value _ =>
    have hvalue := h value (List.mem_singleton_self value)
    rw [run, run, Expr.eval_congr value (hs.env.mono hvalue)]
    rcases value.eval s'.env with e | v
    · exact .some ⟨rfl, hs⟩
    · exact .some ⟨rfl, hs⟩
  | print values _ =>
    rw [run, run, Expr.evalAll_congr values fun e he => hs.env.mono (h e he)]
    rcases Expr.evalAll s'.env values with e | vs
    · exact .some ⟨rfl, hs⟩
    · exact .some ⟨rfl, hs.env, by rw [hs.printed]⟩
  | termination | invalid =>
    rw [run, run]
    exact .some ⟨rfl, hs⟩
  | conditional | loop => exact hsimple.elim

theorem matches_run (limit : Option UInt64) (bound : Nat) (st : Statement) :
    Matches (Mentions · st) (run limit bound st) (run limit bound st) := by
  have hreads : ∀ inner : Statement, Part inner st →
      ∀ e ∈ inner.expressions, ReadsOnly (Mentions · st) e :=
    fun inner hinner e he _ hname => .inr ⟨inner, hinner, e, he, hname⟩
  refine (builtOf_simple_parts st).relatedOn (congruentOn_matches _ limit bound) hreads ?_
  exact fun inner hinner => matches_of_isSimple hinner.1 (hreads inner hinner.2)

/-- From alike states, outcomes alike. -/
theorem Evaluates.exists_alike (h : Evaluates limit st s o) (hs : s.AlikeOn (Mentions · st) s') :
    ∃ o', Evaluates limit st s' o' ∧ o.AlikeOn (Mentions · st) o' := by
  obtain ⟨bound, h⟩ := h
  have hmatches := matches_run limit bound st s s' hs
  rw [h] at hmatches
  generalize hrun : run limit bound st s' = r at hmatches
  cases hmatches with
  | some ho => exact ⟨_, ⟨bound, hrun⟩, ho⟩

/-- Whatever is assigned to a name, a call has the same result if its arguments have. -/
theorem eval_call_congr {env env' : Environment} {arguments : List Expr}
    (h : ∀ e ∈ arguments, e.eval env = e.eval env') (function : String) (position : Position) :
    (Expr.call function arguments position).eval env =
      (Expr.call function arguments position).eval env' := by
  have harguments : Expr.evalAll env arguments = Expr.evalAll env' arguments := by
    induction arguments with
    | nil => rw [Expr.evalAll, Expr.evalAll]
    | cons e es ih =>
      rw [List.forall_mem_cons] at h
      rw [Expr.evalAll, Expr.evalAll, h.1, ih h.2]
  rw [Expr.eval, Expr.eval, harguments]

/-- **A statement depends only on the variables that it mentions.**  In environments that agree on
these its evaluation ends in both or in none of them, and it ends in the same way: with the same
flow or the same trouble, with the same lines printed, and in environments that still agree.  Names
of functions are no variables: whatever is assigned to the name of a builtin function, a call has
the result that it had before, as long as its arguments have theirs. -/
theorem depends_on_mentioned (limit : Option UInt64) (st : Statement) (env env' : Environment)
    (printed : Array String) :
    ((∀ name, st.Mentions name → env.get? name = env'.get? name) →
      ((∃ o, Evaluates limit st ⟨env, printed⟩ o) ↔ ∃ o', Evaluates limit st ⟨env', printed⟩ o') ∧
      ∀ o o', Evaluates limit st ⟨env, printed⟩ o → Evaluates limit st ⟨env', printed⟩ o' →
        o.result = o'.result ∧ o.state.printed = o'.state.printed ∧
          ∀ name, st.Mentions name → o.state.env.get? name = o'.state.env.get? name) ∧
    ∀ (b : Builtin) (v : Value) (function : String) (arguments : List Expr) (position : Position),
      (∀ e ∈ arguments, e.eval (env.assign b.name v) = e.eval env) →
        (Expr.call function arguments position).eval (env.assign b.name v) =
          (Expr.call function arguments position).eval env := by
  refine ⟨fun h => ?_, fun b v function arguments position h => eval_call_congr h _ _⟩
  have hs : State.AlikeOn (Mentions · st) ⟨env, printed⟩ ⟨env', printed⟩ := ⟨h, rfl⟩
  have hs' : State.AlikeOn (Mentions · st) ⟨env', printed⟩ ⟨env, printed⟩ := ⟨hs.env.symm, rfl⟩
  refine ⟨⟨fun ⟨o, ho⟩ => ?_, fun ⟨o', ho'⟩ => ?_⟩, fun o o' ho ho' => ?_⟩
  · obtain ⟨o', ho', -⟩ := ho.exists_alike hs
    exact ⟨o', ho'⟩
  · obtain ⟨o, ho, -⟩ := ho'.exists_alike hs'
    exact ⟨o, ho⟩
  · obtain ⟨o₁, ho₁, halike⟩ := ho.exists_alike hs
    cases ho'.unique ho₁
    exact ⟨halike.result, halike.state.printed, halike.state.env⟩

/-- The loop `mazal abs(x) > 0 { x = x + 1 }`. -/
def countUp : Statement :=
  .loop (.binary (.comparison .greater) (.call "abs" [.var "x" ⟨1, 11⟩] ⟨1, 7⟩)
      (.literal (.integer "0") ⟨1, 16⟩) ⟨1, 14⟩)
    [.assignment "x" (.binary (.arithmetic .add) (.var "x" ⟨1, 24⟩)
      (.literal (.integer "1") ⟨1, 28⟩) ⟨1, 26⟩) ⟨1, 20⟩] ⟨1, 1⟩

theorem eq_of_mentions_countUp {name : String} (h : countUp.Mentions name) : name = "x" := by
  rcases h.cases with ⟨_, _, h⟩ | ⟨e, he, h⟩ | ⟨inner, hinner, h⟩
  · cases h
  · rw [List.mem_singleton.1 he] at h
    simpa using h
  · cases hinner with
    | loop hinner =>
      rw [List.mem_singleton.1 hinner] at h
      rcases h.cases with ⟨_, _, h⟩ | ⟨e, he, h⟩ | ⟨_, hnone, -⟩
      · cases h
        rfl
      · rw [List.mem_singleton.1 he] at h
        simpa using h
      · cases hnone

/-- A variable with the name of the function that the loop calls makes no difference: the loop still
counts up to zero, and the call still has the value 2. -/
theorem depends_on_mentioned_countUp :
    ∃ env : Environment, env.get? "abs" = none ∧
      (∀ name, countUp.Mentions name →
        env.get? name = (env.assign "abs" (.integer 7)).get? name) ∧
      (∃ o, Evaluates none countUp ⟨env.assign "abs" (.integer 7), #[]⟩ o ∧
        o.result = .ok (.next none) ∧ o.state.env.get? "x" = some (.integer 0)) ∧
      (Expr.call "abs" [.var "x" ⟨1, 5⟩] ⟨1, 1⟩).eval (env.assign "abs" (.integer 7)) =
        .ok (.integer 2) := by
  have hrun : ∃ o, run none 4 countUp ⟨Environment.empty.assign "x" (.integer (-2)), #[]⟩ =
      some o ∧ o.result = .ok (.next none) ∧ o.state.env.get? "x" = some (.integer 0) :=
    ⟨_, rfl, rfl, rfl⟩
  obtain ⟨o, ho, hresult, hx⟩ := hrun
  have hagree : ∀ name, countUp.Mentions name →
      (Environment.empty.assign "x" (.integer (-2))).get? name =
        ((Environment.empty.assign "x" (.integer (-2))).assign "abs" (.integer 7)).get? name := by
    intro name hname
    rw [eq_of_mentions_countUp hname]
    rfl
  obtain ⟨hstatement, hcall⟩ := depends_on_mentioned none countUp
    (Environment.empty.assign "x" (.integer (-2)))
    ((Environment.empty.assign "x" (.integer (-2))).assign "abs" (.integer 7)) #[]
  obtain ⟨hends, halike⟩ := hstatement hagree
  obtain ⟨o', ho'⟩ := hends.1 ⟨o, 4, ho⟩
  obtain ⟨heq, -, hstill⟩ := halike o o' ⟨4, ho⟩ ho'
  have hmentions : countUp.Mentions "x" :=
    .inl ⟨_, _, .inr (.body (.loop (List.mem_singleton_self _)))⟩
  refine ⟨_, rfl, hagree, ⟨o', ho', heq.symm.trans hresult, ?_⟩, ?_⟩
  · rw [← hstill "x" hmentions, hx]
  · refine (hcall .abs (.integer 7) "abs" _ _ ?_).trans rfl
    exact List.forall_mem_singleton.2 rfl

end Statement

end DarjaLang
