import DarjaLang.Proofs.Evaluation.Steps

/-!
# Printing while evaluating

`Statement.run` collects the lines that a statement prints, and they are written when it has ended.
A program that is watched prints each line at once.  Here is the evaluation that does so: it hands
each line to a printer as it arises.  A printer may do with a line what it likes, it may keep
count, fail or stop listening, but it gives no answer.

* `Statement.runLive` evaluates a statement and prints as it goes.
* `runLive_eq`: it ends as `run` does, in the same environment, and has handed the collected lines
  to the printer in order.
* `runLive_unheard_eq`: so nothing but the printer itself depends on the printer.
-/

set_option autoImplicit false

namespace DarjaLang

/-- What statements work on when their lines are printed at once. -/
structure Live (σ : Type) where
  env : Environment
  printer : σ

/-- How a statement ended, and the state it left. -/
structure LiveOutcome (σ : Type) where
  result : Except Trouble Flow
  state : Live σ

/-- What an outcome is apart from the printer. -/
def LiveOutcome.unheard {σ : Type} (o : LiveOutcome σ) : Except Trouble Flow × Environment :=
  (o.result, o.state.env)

namespace Statement

variable {σ : Type}

/-- A run of a loop after `count` passes, for at most `bound` further tests of its condition. -/
def iterateLive (limit : Option UInt64) (position : Position) (condition : Expr)
    (body : Live σ → Option (LiveOutcome σ)) :
    (bound count : Nat) → Live σ → Option (LiveOutcome σ)
  | 0, _, _ => none
  | bound + 1, count, s =>
    match condition.holds s.env with
    | .error e => some ⟨.error e, s⟩
    | .ok false => some ⟨.ok (.next none), s⟩
    | .ok true =>
      match reachedLimit? limit count with
      | some n => some ⟨.error ⟨.iterationLimit n, position⟩, s⟩
      | none =>
        match body s with
        | some ⟨.ok (.next _), s⟩ => iterateLive limit position condition body bound (count + 1) s
        | stopped => stopped

variable (say : σ → String → σ) (limit : Option UInt64) (bound : Nat)

mutual

/-- Evaluates a statement and prints as it goes. -/
def runLive : Statement → Live σ → Option (LiveOutcome σ)
  | assignment name value _, s =>
    match value.eval s.env with
    | .error e => some ⟨.error e, s⟩
    | .ok v => some ⟨.ok (.next none), ⟨s.env.assign name v, s.printer⟩⟩
  | expression value _, s =>
    match value.eval s.env with
    | .error e => some ⟨.error e, s⟩
    | .ok v => some ⟨.ok (.next (some v)), s⟩
  | print values _, s =>
    match Expr.evalAll s.env values with
    | .error e => some ⟨.error e, s⟩
    | .ok vs =>
      some ⟨.ok (.next none), ⟨s.env, say s.printer (" ".intercalate (vs.map Value.text))⟩⟩
  | conditional branches otherwise _, s =>
    runBranchesLive branches (runOtherwiseLive otherwise) s
  | loop condition body position, s =>
    iterateLive limit position condition (runBlockLive body) bound 0 s
  | termination _, s => some ⟨.ok .terminate, s⟩
  | invalid complaint, s => some ⟨.error (complaint.map .unparsed), s⟩

/-- Evaluates statements in order, up to the first one that fails or ends the program. -/
def runBlockLive : List Statement → Live σ → Option (LiveOutcome σ)
  | [], s => some ⟨.ok (.next none), s⟩
  | st :: rest, s =>
    match runLive st s with
    | some ⟨.ok (.next _), s⟩ => runBlockLive rest s
    | stopped => stopped

/-- Evaluates the first branch whose condition holds, or else what is done `otherwise`. -/
def runBranchesLive : List (Expr × List Statement) →
    (otherwise : Live σ → Option (LiveOutcome σ)) → Live σ → Option (LiveOutcome σ)
  | [], otherwise, s => otherwise s
  | (condition, body) :: rest, otherwise, s =>
    match condition.holds s.env with
    | .error e => some ⟨.error e, s⟩
    | .ok true => runBlockLive body s
    | .ok false => runBranchesLive rest otherwise s

/-- Evaluates the last block of a conditional, if there is one. -/
def runOtherwiseLive : Option (List Statement) → Live σ → Option (LiveOutcome σ)
  | none, s => some ⟨.ok (.next none), s⟩
  | some body, s => runBlockLive body s

end

end Statement

/-! ## Collecting the lines first -/

/-- The same state if a printer has been handed the collected lines. -/
def State.live {σ : Type} (say : σ → String → σ) (printer : σ) (s : State) : Live σ :=
  ⟨s.env, s.printed.foldl say printer⟩

/-- The same outcome if a printer has been handed the collected lines. -/
def Outcome.live {σ : Type} (say : σ → String → σ) (printer : σ) (o : Outcome) : LiveOutcome σ :=
  ⟨o.result, o.state.live say printer⟩

namespace Statement

variable {σ : Type} {say : σ → String → σ} {printer : σ} {limit : Option UInt64}
  {bound count : Nat} {f : State → Option Outcome} {g : Live σ → Option (LiveOutcome σ)}

/-- To collect the lines and then to hand them to the printer is to print them at once. -/
def Mirrors (say : σ → String → σ) (printer : σ) (f : State → Option Outcome)
    (g : Live σ → Option (LiveOutcome σ)) : Prop :=
  ∀ s, g (s.live say printer) = (f s).map (·.live say printer)

theorem mirrors_iterate (h : Mirrors say printer f g) (position : Position) (condition : Expr) :
    Mirrors say printer (iterate limit position (fun s => condition.holds s.env) f bound count)
      (iterateLive limit position condition g bound count) := by
  induction bound generalizing count with
  | zero => exact fun s => rfl
  | succ bound ih =>
    intro s
    rw [iterate.eq_2, iterateLive.eq_2, show (s.live say printer).env = s.env from rfl]
    rcases condition.holds s.env with e | _ | _
    · rfl
    · rfl
    dsimp only
    rcases reachedLimit? limit count with _ | n
    · dsimp only
      rw [h s]
      rcases f s with _ | ⟨_ | _ | _, s'⟩
      · rfl
      · rfl
      · exact ih s'
      · rfl
    · rfl

theorem mirrors_runBlock {body : List Statement}
    (h : ∀ st ∈ body, Mirrors say printer (run limit bound st) (runLive say limit bound st)) :
    Mirrors say printer (runBlock limit bound body) (runBlockLive say limit bound body) := by
  induction body with
  | nil =>
    intro s
    rw [runBlock, runBlockLive]
    rfl
  | cons st rest ih =>
    obtain ⟨hst, hrest⟩ := List.forall_mem_cons.1 h
    intro s
    rw [runBlock, runBlockLive, hst s]
    rcases run limit bound st s with _ | ⟨_ | _ | _, s'⟩
    · rfl
    · rfl
    · exact ih hrest s'
    · rfl

theorem mirrors_runBranches {branches : List (Expr × List Statement)}
    (hbranches : ∀ b ∈ branches, ∀ st ∈ b.2,
      Mirrors say printer (run limit bound st) (runLive say limit bound st))
    (h : Mirrors say printer f g) :
    Mirrors say printer (runBranches limit bound branches f)
      (runBranchesLive say limit bound branches g) := by
  induction branches with
  | nil =>
    intro s
    rw [runBranches, runBranchesLive, h s]
  | cons b rest ih =>
    obtain ⟨hbody, hrest⟩ := List.forall_mem_cons.1 hbranches
    obtain ⟨condition, body⟩ := b
    intro s
    rw [runBranches, runBranchesLive, show (s.live say printer).env = s.env from rfl]
    rcases condition.holds s.env with e | _ | _
    · rfl
    · exact ih hrest s
    · exact mirrors_runBlock hbody s

theorem mirrors_run_of_isSimple {st : Statement} (h : st.IsSimple) :
    Mirrors say printer (run limit bound st) (runLive say limit bound st) := by
  intro s
  cases st with
  | assignment name value =>
    rw [run, runLive, show (s.live say printer).env = s.env from rfl]
    rcases value.eval s.env with e | v <;> rfl
  | expression value =>
    rw [run, runLive, show (s.live say printer).env = s.env from rfl]
    rcases value.eval s.env with e | v <;> rfl
  | print values =>
    rw [run, runLive, show (s.live say printer).env = s.env from rfl]
    rcases Expr.evalAll s.env values with e | vs
    · rfl
    · simp [Outcome.live, State.live]
  | termination | invalid =>
    rw [run, runLive]
    rfl
  | conditional | loop => exact h.elim

/-- **To print at once is to collect the lines and to print them in the end**, as far as the printer
gives no answer: the evaluation ends in the same way and in the same environment, and the printer
has been handed the same lines in the same order. -/
theorem runLive_eq (say : σ → String → σ) (printer : σ) (limit : Option UInt64) (bound : Nat)
    (st : Statement) (s : State) :
    runLive say limit bound st (s.live say printer) =
      (run limit bound st s).map (·.live say printer) := by
  have hst := builtOf_simple st
  -- The parts of a statement start in other states, so the induction is about all of them.
  suffices h : Mirrors say printer (run limit bound st) (runLive say limit bound st) from h s
  clear s
  induction hst with
  | leaf h => exact mirrors_run_of_isSimple h
  | @conditional branches otherwise position _ _ hbranches hotherwise =>
    intro s
    rw [run, runLive]
    refine mirrors_runBranches hbranches ?_ s
    intro s
    rcases otherwise with _ | body
    · rw [runOtherwise, runOtherwiseLive]
      rfl
    · rw [runOtherwise, runOtherwiseLive]
      exact mirrors_runBlock (hotherwise body rfl) s
  | @loop condition body position _ hbody =>
    intro s
    rw [run, runLive]
    exact mirrors_iterate (mirrors_runBlock hbody) position condition s

/-- **The printer has no say.**  Evaluations that start in the same environment end in the same way
and in the same environment, whatever their printers are. -/
theorem runLive_unheard_eq {σ' : Type} (say : σ → String → σ) (say' : σ' → String → σ')
    (printer : σ) (printer' : σ') (st : Statement) (env : Environment) :
    (runLive say limit bound st ⟨env, printer⟩).map LiveOutcome.unheard =
      (runLive say' limit bound st ⟨env, printer'⟩).map LiveOutcome.unheard := by
  have h := runLive_eq say printer limit bound st ⟨env, #[]⟩
  have h' := runLive_eq say' printer' limit bound st ⟨env, #[]⟩
  rw [show (⟨env, printer⟩ : Live σ) = (⟨env, #[]⟩ : State).live say printer from rfl, h,
    show (⟨env, printer'⟩ : Live σ') = (⟨env, #[]⟩ : State).live say' printer' from rfl, h',
    Option.map_map, Option.map_map]
  rfl

end Statement

end DarjaLang
