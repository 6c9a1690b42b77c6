import DarjaLang.Proofs.Evaluation.Bound

/-!
# The course of an evaluation

The evaluation of a statement, one step after the other.  What is left to do is a list of tasks, and
a step works on the first of them: it evaluates a simple statement, or it replaces a conditional or
a loop by what they lead to.

* `Statement.Step` is one step, with the simple statement that it completes, if there is one, and
  `Statement.Steps` some steps, with the simple statements that they complete, in order.
* `Statement.Halts` says that there is no further step, and how the program ends.
* `exists_steps` is the course that an evaluation takes.  There is no other one (`Steps.unique`),
  and the state it comes to is that of the simple statements alone (`Steps.completes`), which are
  parts of the statement (`Steps.simple_parts`).
-/

set_option autoImplicit false

namespace DarjaLang

namespace Statement

/-- What is left to do in an evaluation. -/
inductive Task
  /-- A statement is to be evaluated. -/
  | statement (st : Statement)
  /-- A run of a loop goes on, which has executed the body so many times. -/
  | again (condition : Expr) (body : List Statement) (position : Position) (count : Nat)

/-- The statements are to be evaluated in order. -/
def tasks (body : List Statement) : List Task := body.map .statement

/-- The block that a conditional leads to.  It is empty if no condition holds and there is nothing
to do otherwise. -/
def taken (env : Environment) (branches : List (Expr × List Statement))
    (otherwise : Option (List Statement)) : Except Trouble (List Statement) :=
  match branches with
  | [] => .ok (otherwise.getD [])
  | (condition, body) :: branches =>
    match condition.holds env with
    | .error e => .error e
    | .ok true => .ok body
    | .ok false => taken env branches otherwise

/-- One step of an evaluation, and the simple statements that it completes: one, or none. -/
inductive Step (limit : Option UInt64) :
    List Task → State → (done : List Statement) → List Task → State → Prop
  | simple {st : Statement} {v : Option Value} {work : List Task} {s s' : State}
      (hst : st.IsSimple) (h : Evaluates limit st s ⟨.ok (.next v), s'⟩) :
      Step limit (.statement st :: work) s [st] work s'
  | conditional {branches : List (Expr × List Statement)} {otherwise : Option (List Statement)}
      {position : Position} {body : List Statement} {work : List Task} {s : State}
      (h : taken s.env branches otherwise = .ok body) :
      Step limit (.statement (.conditional branches otherwise position) :: work) s []
        (tasks body ++ work) s
  | loop {condition : Expr} {body : List Statement} {position : Position} {work : List Task}
      {s : State} :
      Step limit (.statement (.loop condition body position) :: work) s []
        (.again condition body position 0 :: work) s
  | pass {condition : Expr} {body : List Statement} {position : Position} {count : Nat}
      {work : List Task} {s : State} (hholds : condition.holds s.env = .ok true)
      (hlimit : reachedLimit? limit count = none) :
      Step limit (.again condition body position count :: work) s []
        (tasks body ++ .again condition body position (count + 1) :: work) s
  | leave {condition : Expr} {body : List Statement} {position : Position} {count : Nat}
      {work : List Task} {s : State} (h : condition.holds s.env = .ok false) :
      Step limit (.again condition body position count :: work) s [] work s

/-- There is no further step: everything is done, or the first task ends the program or fails. -/
inductive Halts (limit : Option UInt64) : List Task → State → Except Trouble Flow → Prop
  | finished {v : Option Value} {s : State} : Halts limit [] s (.ok (.next v))
  | simple {st : Statement} {work : List Task} {s : State} {result : Except Trouble Flow}
      (hst : st.IsSimple) (h : Evaluates limit st s ⟨result, s⟩)
      (hstops : ∀ v, result ≠ .ok (.next v)) : Halts limit (.statement st :: work) s result
  | conditional {branches : List (Expr × List Statement)} {otherwise : Option (List Statement)}
      {position : Position} {work : List Task} {s : State} {e : Trouble}
      (h : taken s.env branches otherwise = .error e) :
      Halts limit (.statement (.conditional branches otherwise position) :: work) s (.error e)
  | condition {condition : Expr} {body : List Statement} {position : Position} {count : Nat}
      {work : List Task} {s : State} {e : Trouble} (h : condition.holds s.env = .error e) :
      Halts limit (.again condition body position count :: work) s (.error e)
  | limit {condition : Expr} {body : List Statement} {position : Position} {count : Nat}
      {work : List Task} {s : State} {n : UInt64} (hholds : condition.holds s.env = .ok true)
      (hlimit : reachedLimit? limit count = some n) :
      Halts limit (.again condition body position count :: work) s
        (.error ⟨.iterationLimit n, position⟩)

/-- Steps of an evaluation, and the simple statements that they complete, in order. -/
inductive Steps (limit : Option UInt64) :
    List Task → State → (done : List Statement) → List Task → State → Prop
  | refl {work : List Task} {s : State} : Steps limit work s [] work s
  | step {work work₁ work₂ : List Task} {s s₁ s₂ : State} {now later : List Statement}
      (h : Step limit work s now work₁ s₁) (hrest : Steps limit work₁ s₁ later work₂ s₂) :
      Steps limit work s (now ++ later) work₂ s₂

variable {limit : Option UInt64} {bound count : Nat} {position : Position} {condition : Expr}
  {branches : List (Expr × List Statement)} {otherwise : Option (List Statement)}
  {st : Statement} {body now later done done' : List Statement}
  {work work₁ work₂ todo todo' : List Task} {s s₁ s₂ : State} {o : Outcome}
  {result result' : Except Trouble Flow}

theorem Steps.trans (h : Steps limit work s done work₁ s₁)
    (h' : Steps limit work₁ s₁ done' work₂ s₂) : Steps limit work s (done ++ done') work₂ s₂ := by
  induction h with
  | refl => exact h'
  | step hstep _ ih =>
    rw [List.append_assoc]
    exact .step hstep (ih h')

/-! ## There is only one course -/

theorem Step.unique (h : Step limit work s done work₁ s₁) (h' : Step limit work s done' work₂ s₂) :
    done' = done ∧ work₂ = work₁ ∧ s₂ = s₁ := by
  cases h with
  | simple hst h =>
    cases h' with
    | simple _ h' =>
      cases h.unique h'
      exact ⟨rfl, rfl, rfl⟩
    | conditional => exact hst.elim
    | loop => exact hst.elim
  | conditional h =>
    cases h' with
    | simple hst _ => exact hst.elim
    | conditional h' =>
      cases h.symm.trans h'
      exact ⟨rfl, rfl, rfl⟩
  | loop =>
    cases h' with
    | simple hst _ => exact hst.elim
    | loop => exact ⟨rfl, rfl, rfl⟩
  | pass hholds _ =>
    cases h' with
    | pass => exact ⟨rfl, rfl, rfl⟩
    | leave h' => cases hholds.symm.trans h'
  | leave h =>
    cases h' with
    | pass hholds _ => cases h.symm.trans hholds
    | leave => exact ⟨rfl, rfl, rfl⟩

theorem Halts.not_step (h : Halts limit work s result) : ¬ Step limit work s done work₁ s₁ := by
  intro h'
  cases h with
  | finished => cases h'
  | simple hst h hstops =>
    cases h' with
    | simple _ h' =>
      cases h.unique h'
      exact hstops _ rfl
    | conditional => exact hst
    | loop => exact hst
  | conditional h =>
    cases h' with
    | simple hst _ => exact hst
    | conditional h' => cases h.symm.trans h'
  | condition h =>
    cases h' with
    | pass hholds _ => cases h.symm.trans hholds
    | leave h' => cases h.symm.trans h'
  | limit hholds hlimit =>
    cases h' with
    | pass _ hlimit' => cases hlimit.symm.trans hlimit'
    | leave h' => cases hholds.symm.trans h'

/-- **An evaluation has only one course.** -/
theorem Steps.unique (h : Steps limit work s done work₁ s₁) (hhalts : Halts limit work₁ s₁ result)
    (h' : Steps limit work s done' work₂ s₂) (hhalts' : Halts limit work₂ s₂ result') :
    done' = done ∧ work₂ = work₁ ∧ s₂ = s₁ := by
  induction h generalizing done' with
  | refl =>
    cases h' with
    | refl => exact ⟨rfl, rfl, rfl⟩
    | step hstep _ => exact absurd hstep hhalts.not_step
  | step hstep _ ih =>
    cases h' with
    | refl => exact absurd hstep hhalts'.not_step
    | step hstep' hrest' =>
      obtain ⟨rfl, rfl, rfl⟩ := hstep.unique hstep'
      obtain ⟨rfl, hwork, hs⟩ := ih hhalts hrest'
      exact ⟨rfl, hwork, hs⟩

/-! ## The statements that are completed -/

/-- What holds of all statements in the bodies of a conditional holds of the block it leads to. -/
theorem forall_mem_of_taken {P : Statement → Prop} {env : Environment}
    (h : taken env branches otherwise = .ok body) (hbranches : ∀ b ∈ branches, ∀ st ∈ b.2, P st)
    (hotherwise : ∀ body ∈ otherwise, ∀ st ∈ body, P st) : ∀ st ∈ body, P st := by
  induction branches with
  | nil =>
    cases h
    cases otherwise with
    | none => nofun
    | some body => exact hotherwise body rfl
  | cons b branches ih =>
    obtain ⟨condition, first⟩ := b
    rw [List.forall_mem_cons] at hbranches
    rw [taken] at h
    split at h
    · cases h
    · cases h
      exact hbranches.1
    · exact ih h hbranches.2

/-- All that the task may evaluate are parts of the statement. -/
def Task.Of (st : Statement) : Task → Prop
  | statement inner => Part inner st
  | again _ body _ _ => ∀ inner ∈ body, Part inner st

theorem of_tasks_append {rest : List Task} (hbody : ∀ inner ∈ body, Part inner st)
    (hrest : ∀ t ∈ rest, t.Of st) : ∀ t ∈ tasks body ++ rest, t.Of st := by
  rw [List.forall_mem_append, tasks, List.forall_mem_map]
  exact ⟨hbody, hrest⟩

/-- A step only leads to parts of the statement. -/
theorem Step.of (h : Step limit work s done work₁ s₁) (hwork : ∀ t ∈ work, t.Of st) :
    ∀ t ∈ work₁, t.Of st := by
  cases h with
  | simple => exact (List.forall_mem_cons.1 hwork).2
  | @conditional branches otherwise position body rest _ h =>
    obtain ⟨hfirst, hrest⟩ := List.forall_mem_cons.1 hwork
    refine of_tasks_append (forall_mem_of_taken h (fun b hb inner hinner => ?_)
      fun body hbody inner hinner => ?_) hrest
    · exact InBodyOf.part (.branch hb hinner) hfirst
    · cases hbody
      exact InBodyOf.part (.otherwise hinner) hfirst
  | loop =>
    obtain ⟨hfirst, hrest⟩ := List.forall_mem_cons.1 hwork
    exact List.forall_mem_cons.2 ⟨fun inner hinner => InBodyOf.part (.loop hinner) hfirst, hrest⟩
  | pass =>
    obtain ⟨hbody, hrest⟩ := List.forall_mem_cons.1 hwork
    exact of_tasks_append hbody (List.forall_mem_cons.2 ⟨hbody, hrest⟩)
  | leave => exact (List.forall_mem_cons.1 hwork).2

/-- **The statements that are completed are simple parts of the statement.** -/
theorem Steps.simple_parts (h : Steps limit work s done work₁ s₁) (hwork : ∀ t ∈ work, t.Of st) :
    ∀ inner ∈ done, inner.IsSimple ∧ Part inner st := by
  induction h with
  | refl => exact List.forall_mem_nil _
  | step hstep _ ih =>
    have hrest := ih (hstep.of hwork)
    cases hstep with
    | simple hsimple _ =>
      exact List.forall_mem_cons.2 ⟨⟨hsimple, hwork _ List.mem_cons_self⟩, hrest⟩
    | _ => exact hrest

/-- **The state that an evaluation has come to is that of the simple statements which it has
completed**, evaluated one after the other. -/
theorem Steps.completes (h : Steps limit work s done work₁ s₁) : Completes limit done s s₁ := by
  induction h with
  | refl => exact .nil
  | step hstep _ ih =>
    cases hstep with
    | simple _ h => exact .cons h ih
    | _ => exact ih

/-! ## The course of an evaluation -/

/-- A conditional is the block it leads to. -/
theorem run_conditional_eq (limit : Option UInt64) (bound : Nat)
    (branches : List (Expr × List Statement)) (otherwise : Option (List Statement))
    (position : Position) (s : State) :
    run limit bound (.conditional branches otherwise position) s =
      match taken s.env branches otherwise with
      | .error e => some ⟨.error e, s⟩
      | .ok body => runBlock limit bound body s := by
  rw [run_conditional]
  induction branches with
  | nil =>
    rw [runBranches_nil, taken]
    cases otherwise with
    | none =>
      rw [runOtherwise_none]
      exact congrFun runBlock_nil.symm s
    | some body =>
      rw [runOtherwise_some]
      rfl
  | cons b branches ih =>
    obtain ⟨condition, body⟩ := b
    rw [runBranches_cons, taken, choose]
    cases condition.holds s.env with
    | error e => rfl
    | ok b =>
      cases b with
      | true => rfl
      | false => exact ih

/-- Whatever is left to do behind the tasks, they are worked through with the outcome: nothing else
is left afterwards, or the program has ended before that. -/
def Works (limit : Option UInt64) (todo : List Task) (s : State) (o : Outcome) : Prop :=
  ∀ work,
    (∃ v done, o.result = .ok (.next v) ∧ Steps limit (todo ++ work) s done work o.state) ∨
      (∀ v, o.result ≠ .ok (.next v)) ∧ ∃ done rest,
        Steps limit (todo ++ work) s done rest o.state ∧ Halts limit rest o.state o.result

theorem works_nil (v : Option Value) (s : State) : Works limit [] s ⟨.ok (.next v), s⟩ :=
  fun _ => .inl ⟨v, [], rfl, .refl⟩

theorem works_of_halts (hstops : ∀ v, result ≠ .ok (.next v))
    (h : ∀ work, Halts limit (todo ++ work) s result) : Works limit todo s ⟨result, s⟩ :=
  fun work => .inr ⟨hstops, [], _, .refl, h work⟩

/-- The tasks are worked through like those that a step replaces them by. -/
theorem Works.of_step (h : ∀ work, Step limit (todo ++ work) s now (todo' ++ work) s₁)
    (hrest : Works limit todo' s₁ o) : Works limit todo s o := by
  intro work
  rcases hrest work with ⟨v, done, hv, hsteps⟩ | ⟨hstops, done, rest, hsteps, hhalts⟩
  · exact .inl ⟨v, _, hv, .step (h work) hsteps⟩
  · exact .inr ⟨hstops, _, rest, .step (h work) hsteps, hhalts⟩

/-- Some tasks and others behind them. -/
theorem Works.append {v : Option Value} (h : Works limit todo s ⟨.ok (.next v), s₁⟩)
    (h' : Works limit todo' s₁ o) : Works limit (todo ++ todo') s o := by
  intro work
  rw [List.append_assoc]
  rcases h (todo' ++ work) with ⟨_, before, -, hbefore⟩ | ⟨hstops, -⟩
  · rcases h' work with ⟨w, done, hw, hsteps⟩ | ⟨hstops, done, rest, hsteps, hhalts⟩
    · exact .inl ⟨w, _, hw, hbefore.trans hsteps⟩
    · exact .inr ⟨hstops, _, rest, hbefore.trans hsteps, hhalts⟩
  · exact absurd rfl (hstops v)

/-- The program ends before it comes to the tasks behind. -/
theorem Works.append_of_stops (h : Works limit todo s o) (hstops : ∀ v, o.result ≠ .ok (.next v))
    (todo' : List Task) : Works limit (todo ++ todo') s o := by
  intro work
  rw [List.append_assoc]
  rcases h (todo' ++ work) with ⟨v, -, hv, -⟩ | hends
  · exact absurd hv (hstops v)
  · exact .inr hends

theorem works_of_andThen {f g : State → Option Outcome}
    (hf : ∀ {o}, f s = some o → Works limit todo s o)
    (hg : ∀ {s o}, g s = some o → Works limit todo' s o) (h : andThen f g s = some o) :
    Works limit (todo ++ todo') s o := by
  rcases andThen_eq_some h with ⟨v, s₁, hfirst, hrest⟩ | ⟨hstop, hstops⟩
  · exact (hf hfirst).append (hg hrest)
  · exact (hf hstop).append_of_stops hstops todo'

theorem works_of_runBlock
    (hbody : ∀ st ∈ body, ∀ {s o}, run limit bound st s = some o → Works limit [.statement st] s o)
    (h : runBlock limit bound body s = some o) : Works limit (tasks body) s o := by
  induction body generalizing s o with
  | nil =>
    rw [runBlock_nil] at h
    cases h
    exact works_nil none s
  | cons st body ih =>
    rw [List.forall_mem_cons] at hbody
    rw [runBlock_cons] at h
    exact works_of_andThen hbody.1 (ih hbody.2) h

theorem works_of_runLoop {f : State → Option Outcome}
    (hbody : ∀ {s o}, f s = some o → Works limit (tasks body) s o)
    (h : runLoop limit position condition f bound count s = some o) :
    Works limit [.again condition body position count] s o := by
  induction bound generalizing count s o with
  | zero => cases h
  | succ bound ih =>
    rw [runLoop_succ] at h
    rcases choose_eq_some h with ⟨e, hfails, rfl⟩ | ⟨hholds, hpass⟩ | ⟨hholds, hskip⟩
    · exact works_of_halts nofun fun _ => .condition hfails
    · cases hlimit : reachedLimit? limit count with
      | some n =>
        rw [hlimit] at hpass
        cases hpass
        exact works_of_halts nofun fun _ => .limit hholds hlimit
      | none =>
        rw [hlimit] at hpass
        have hstep : ∀ work, Step limit ([.again condition body position count] ++ work) s []
            ((tasks body ++ [.again condition body position (count + 1)]) ++ work) s := by
          intro work
          rw [List.append_assoc]
          exact .pass hholds hlimit
        exact .of_step hstep (works_of_andThen hbody ih hpass)
    · cases hskip
      exact .of_step (fun _ => .leave hholds) (works_nil none s)

/-- A simple statement that does not go on leaves the state as it is. -/
theorem state_eq_of_isSimple (hst : st.IsSimple) (h : run limit bound st s = some o)
    (hstops : ∀ v, o.result ≠ .ok (.next v)) : o.state = s := by
  rcases hst.cases with haction | ⟨position, rfl⟩ | ⟨complaint, rfl⟩
  · rcases run_of_isAction haction s with ⟨e, -, hrun⟩ | ⟨v, s', hrun, -⟩
    · cases h.symm.trans hrun
      rfl
    · cases h.symm.trans hrun
      exact absurd rfl (hstops v)
  · rw [run] at h
    cases h
    rfl
  · rw [run] at h
    cases h
    rfl

theorem works_of_isSimple (hst : st.IsSimple) (h : run limit bound st s = some o) :
    Works limit [.statement st] s o := by
  obtain ⟨result, s'⟩ := o
  by_cases hnext : ∃ v, result = .ok (.next v)
  · obtain ⟨v, rfl⟩ := hnext
    exact .of_step (fun _ => .simple hst ⟨bound, h⟩) (works_nil v s')
  · have hstops : ∀ v, result ≠ .ok (.next v) := fun v hv => hnext ⟨v, hv⟩
    obtain rfl : s' = s := state_eq_of_isSimple hst h hstops
    exact works_of_halts hstops fun _ => .simple hst ⟨bound, h⟩ hstops

theorem works_of_run (h : run limit bound st s = some o) : Works limit [.statement st] s o := by
  have hst := builtOf_simple st
  induction hst generalizing s o with
  | leaf hsimple => exact works_of_isSimple hsimple h
  | @conditional branches otherwise position _ _ hbranches hotherwise =>
    rw [run_conditional_eq] at h
    cases htaken : taken s.env branches otherwise with
    | error e =>
      rw [htaken] at h
      cases h
      exact works_of_halts nofun fun _ => .conditional htaken
    | ok body =>
      rw [htaken] at h
      have hbody := forall_mem_of_taken htaken hbranches hotherwise
      exact .of_step (fun _ => .conditional htaken) (works_of_runBlock hbody h)
  | loop _ hbody =>
    rw [run_loop] at h
    exact .of_step (fun _ => .loop) (works_of_runLoop (works_of_runBlock hbody) h)

/-- **An evaluation goes step by step.** -/
theorem exists_steps (h : Evaluates limit st s o) :
    ∃ done work, Steps limit [.statement st] s done work o.state ∧
      Halts limit work o.state o.result := by
  obtain ⟨bound, h⟩ := h
  rcases works_of_run h [] with ⟨v, done, hv, hsteps⟩ | ⟨-, hends⟩
  · exact ⟨done, [], hsteps, hv ▸ .finished⟩
  · exact hends

end Statement

end DarjaLang
