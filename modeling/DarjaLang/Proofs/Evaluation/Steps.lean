import DarjaLang.Evaluation.Statement
import DarjaLang.Proofs.Syntax.Parts

/-!
# How the evaluation of a statement is put together

The evaluation of a block, of a conditional and of a loop is put together from those of their parts
in two ways: one behind the other (`Statement.andThen`), and by a condition (`Statement.choose`).
What holds of the parts therefore holds of the whole if these two ways and the runs of loops keep
it.

* `runBlock_cons`, `runBranches_cons` and `runLoop_succ` take the evaluation apart.
* `Statement.Congruent` says of a relation between evaluations that it is kept.  The two sides may
  differ in the limit and in the bound, which only the runs of loops look at.  A relation may be
  kept for some conditions only; this is `Statement.CongruentOn`.
* `BuiltOf.related` and `BuiltOf.relatedOn` are the induction: statements are related if those they
  are built of are.
* `Statement.Moves R` says that a state and the one an evaluation leaves are related by `R`.  It is
  kept if `R` is reflexive and transitive (`congruent_moves`).
* `eq_expression_of_run`: only an expression leaves a value.
-/

set_option autoImplicit false

namespace DarjaLang

namespace Statement

/-- One evaluation and, if the program then goes on, another. -/
def andThen (f g : State → Option Outcome) (s : State) : Option Outcome :=
  match f s with
  | some ⟨.ok (.next _), s⟩ => g s
  | stopped => stopped

/-- One evaluation if the condition holds, and another if it does not. -/
def choose (condition : Expr) (f g : State → Option Outcome) (s : State) : Option Outcome :=
  match condition.holds s.env with
  | .error e => some ⟨.error e, s⟩
  | .ok true => f s
  | .ok false => g s

/-- Nothing is done, and the program goes on. -/
def skip (s : State) : Option Outcome := some ⟨.ok (.next none), s⟩

/-- The limit is reached at a loop. -/
def stopAt (n : UInt64) (position : Position) (s : State) : Option Outcome :=
  some ⟨.error ⟨.iterationLimit n, position⟩, s⟩

variable {limit limit' : Option UInt64} {bound bound' count : Nat} {position : Position}
  {condition : Expr} {f f' g g' : State → Option Outcome} {s s' : State} {o : Outcome}

/-! ## Taking an evaluation apart -/

theorem andThen_of_next {v : Option Value} (h : f s = some ⟨.ok (.next v), s'⟩) :
    andThen f g s = g s' := by
  rw [andThen, h]

theorem andThen_of_stops (h : f s = some o) (hstops : ∀ v, o.result ≠ .ok (.next v)) :
    andThen f g s = some o := by
  rw [andThen, h]
  obtain ⟨result, s'⟩ := o
  split
  · next hnext =>
    cases hnext
    exact absurd rfl (hstops _)
  · rfl

/-- The first evaluation goes on to the second one, or it stops. -/
theorem andThen_eq_some (h : andThen f g s = some o) :
    (∃ v s', f s = some ⟨.ok (.next v), s'⟩ ∧ g s' = some o) ∨
      (f s = some o ∧ ∀ v, o.result ≠ .ok (.next v)) := by
  rw [andThen] at h
  split at h
  · next v s' hf => exact .inl ⟨v, s', hf, h⟩
  · next hne =>
    refine .inr ⟨h, fun v hv => ?_⟩
    obtain ⟨result, s'⟩ := o
    cases hv
    exact hne v s' h

/-- A condition fails, holds or does not hold. -/
theorem choose_eq_some (h : choose condition f g s = some o) :
    (∃ e, condition.holds s.env = .error e ∧ o = ⟨.error e, s⟩) ∨
      (condition.holds s.env = .ok true ∧ f s = some o) ∨
      (condition.holds s.env = .ok false ∧ g s = some o) := by
  rw [choose] at h
  split at h
  · next e he =>
    cases h
    exact .inl ⟨e, he, rfl⟩
  · next ht => exact .inr (.inl ⟨ht, h⟩)
  · next hf => exact .inr (.inr ⟨hf, h⟩)

theorem choose_of_error {e : Trouble} (h : condition.holds s.env = .error e) :
    choose condition f g s = some ⟨.error e, s⟩ := by
  rw [choose, h]

theorem choose_of_true (h : condition.holds s.env = .ok true) : choose condition f g s = f s := by
  rw [choose, h]

theorem choose_of_false (h : condition.holds s.env = .ok false) :
    choose condition f g s = g s := by
  rw [choose, h]

theorem runBlock_nil : runBlock limit bound [] = skip := by
  funext s
  rw [runBlock, skip]

theorem runBlock_cons (st : Statement) (body : List Statement) :
    runBlock limit bound (st :: body) =
      andThen (run limit bound st) (runBlock limit bound body) := by
  funext s
  rewrite [runBlock.eq_2, andThen.eq_def]
  rfl

theorem runBranches_nil (otherwise : State → Option Outcome) :
    runBranches limit bound [] otherwise = otherwise := by
  funext s
  rw [runBranches]

theorem runBranches_cons (body : List Statement) (branches : List (Expr × List Statement))
    (otherwise : State → Option Outcome) :
    runBranches limit bound ((condition, body) :: branches) otherwise =
      choose condition (runBlock limit bound body)
        (runBranches limit bound branches otherwise) := by
  funext s
  rewrite [runBranches, choose]
  rfl

theorem run_conditional (branches : List (Expr × List Statement))
    (otherwise : Option (List Statement)) :
    run limit bound (.conditional branches otherwise position) =
      runBranches limit bound branches (runOtherwise limit bound otherwise) := by
  funext s
  rw [run]

theorem runOtherwise_none : runOtherwise limit bound none = skip := by
  funext s
  rw [runOtherwise, skip]

theorem runOtherwise_some (body : List Statement) :
    runOtherwise limit bound (some body) = runBlock limit bound body := by
  funext s
  rw [runOtherwise]

/-- A run of a loop after `count` passes, for at most `bound` further tests. -/
def runLoop (limit : Option UInt64) (position : Position) (condition : Expr)
    (body : State → Option Outcome) (bound count : Nat) : State → Option Outcome :=
  iterate limit position (fun s => condition.holds s.env) body bound count

theorem run_loop (body : List Statement) :
    run limit bound (.loop condition body position) =
      runLoop limit position condition (runBlock limit bound body) bound 0 := by
  funext s
  rw [run, runLoop]

/-- A run of a loop tests its condition, looks at the limit, and passes through its body. -/
theorem runLoop_succ : runLoop limit position condition f (bound + 1) count =
    choose condition
      (match reachedLimit? limit count with
        | some n => stopAt n position
        | none => andThen f (runLoop limit position condition f bound (count + 1)))
      skip := by
  funext s
  rw [runLoop, iterate.eq_2, choose]
  cases condition.holds s.env with
  | error e => rfl
  | ok b =>
    cases b with
    | false => rfl
    | true =>
      cases reachedLimit? limit count with
      | some n => rfl
      | none =>
        dsimp only
        rw [andThen.eq_def]
        rfl

/-! ## Relations between evaluations -/

/-- A relation that is kept by the ways in which evaluations are put together, as far as the
conditions are fit for it. -/
structure CongruentOn (Fit : Expr → Prop) (limit limit' : Option UInt64) (bound bound' : Nat)
    (R : (State → Option Outcome) → (State → Option Outcome) → Prop) : Prop where
  skip : R skip skip
  andThen : ∀ {f f' g g'}, R f f' → R g g' → R (andThen f g) (andThen f' g')
  choose : ∀ {condition : Expr}, Fit condition → ∀ {f f' g g'}, R f f' → R g g' →
    R (choose condition f g) (choose condition f' g')
  loop : ∀ {condition : Expr} (position : Position), Fit condition → ∀ {f f'}, R f f' →
    R (runLoop limit position condition f bound 0) (runLoop limit' position condition f' bound' 0)

/-- A relation that is kept by the ways in which evaluations are put together. -/
structure Congruent (limit limit' : Option UInt64) (bound bound' : Nat)
    (R : (State → Option Outcome) → (State → Option Outcome) → Prop) : Prop where
  skip : R skip skip
  andThen : ∀ {f f' g g'}, R f f' → R g g' → R (andThen f g) (andThen f' g')
  choose : ∀ (condition : Expr) {f f' g g'}, R f f' → R g g' →
    R (choose condition f g) (choose condition f' g')
  loop : ∀ (condition : Expr) (position : Position) {f f'}, R f f' →
    R (runLoop limit position condition f bound 0) (runLoop limit' position condition f' bound' 0)

section Related

variable {R : (State → Option Outcome) → (State → Option Outcome) → Prop} {Fit : Expr → Prop}
  {Leaf : Statement → Prop}

theorem Congruent.on (hR : Congruent limit limit' bound bound' R) (Fit : Expr → Prop) :
    CongruentOn Fit limit limit' bound bound' R where
  skip := hR.skip
  andThen := hR.andThen
  choose _ := hR.choose _
  loop position _ := hR.loop _ position

theorem CongruentOn.runBlock (hR : CongruentOn Fit limit limit' bound bound' R)
    {body : List Statement} (hbody : ∀ st ∈ body, R (run limit bound st) (run limit' bound' st)) :
    R (runBlock limit bound body) (runBlock limit' bound' body) := by
  induction body with
  | nil =>
    rw [runBlock_nil, runBlock_nil]
    exact hR.skip
  | cons st body ih =>
    rw [List.forall_mem_cons] at hbody
    rw [runBlock_cons, runBlock_cons]
    exact hR.andThen hbody.1 (ih hbody.2)

theorem CongruentOn.runBranches (hR : CongruentOn Fit limit limit' bound bound' R)
    {branches : List (Expr × List Statement)} (hfit : ∀ b ∈ branches, Fit b.1)
    (hbranches : ∀ b ∈ branches, ∀ st ∈ b.2, R (run limit bound st) (run limit' bound' st))
    (hf : R f f') :
    R (runBranches limit bound branches f) (runBranches limit' bound' branches f') := by
  induction branches with
  | nil =>
    rw [runBranches_nil, runBranches_nil]
    exact hf
  | cons b branches ih =>
    obtain ⟨condition, body⟩ := b
    rw [List.forall_mem_cons] at hfit hbranches
    rw [runBranches_cons, runBranches_cons]
    exact hR.choose hfit.1 (hR.runBlock hbranches.1) (ih hfit.2 hbranches.2)

/-- **Statements are related if those they are built of are**, and all conditions in them are
fit. -/
theorem BuiltOf.relatedOn {st : Statement} (h : BuiltOf Leaf st)
    (hR : CongruentOn Fit limit limit' bound bound' R)
    (hfit : ∀ inner : Statement, Part inner st → ∀ e ∈ inner.expressions, Fit e)
    (hleaf : ∀ st, Leaf st → R (run limit bound st) (run limit' bound' st)) :
    R (run limit bound st) (run limit' bound' st) := by
  induction h with
  | leaf h => exact hleaf _ h
  | @conditional branches otherwise position _ _ hbranches hotherwise =>
    have hin : ∀ st, InBodyOf st (.conditional branches otherwise position) →
        ∀ inner : Statement, Part inner st → ∀ e ∈ inner.expressions, Fit e :=
      fun st hst inner hinner => hfit inner (hinner.of_inBodyOf hst)
    rw [run_conditional, run_conditional]
    refine hR.runBranches (List.forall_mem_map.1 (hfit _ .rfl))
      (fun b hb st hst => hbranches b hb st hst (hin st (.branch hb hst))) ?_
    cases otherwise with
    | none =>
      rw [runOtherwise_none, runOtherwise_none]
      exact hR.skip
    | some body =>
      rw [runOtherwise_some, runOtherwise_some]
      exact hR.runBlock fun st hst => hotherwise body rfl st hst (hin st (.otherwise hst))
  | @loop condition body position _ hbody =>
    rw [run_loop, run_loop]
    refine hR.loop position (hfit _ .rfl condition (List.mem_singleton_self condition)) ?_
    exact hR.runBlock fun st hst =>
      hbody st hst fun inner hinner => hfit inner (hinner.of_inBodyOf (.loop hst))

theorem Congruent.runBlock (hR : Congruent limit limit' bound bound' R) {body : List Statement}
    (hbody : ∀ st ∈ body, R (run limit bound st) (run limit' bound' st)) :
    R (Statement.runBlock limit bound body) (Statement.runBlock limit' bound' body) :=
  (hR.on fun _ => True).runBlock hbody

/-- **Statements are related if those they are built of are.** -/
theorem BuiltOf.related {st : Statement} (hR : Congruent limit limit' bound bound' R)
    (h : BuiltOf Leaf st)
    (hleaf : ∀ st, Leaf st → R (run limit bound st) (run limit' bound' st)) :
    R (run limit bound st) (run limit' bound' st) :=
  h.relatedOn (hR.on fun _ => True) (fun _ _ _ _ => trivial) hleaf

end Related

/-! ## States before and after -/

/-- Wherever the evaluation ends, the state that it leaves is related to the one it began in. -/
def Moves (R : State → State → Prop) (f : State → Option Outcome) : Prop :=
  ∀ s o, f s = some o → R s o.state

section Moves

variable {R : State → State → Prop}

theorem moves_skip (hrefl : ∀ s, R s s) : Moves R skip := by
  intro s o h
  cases h
  exact hrefl s

theorem moves_stopAt (hrefl : ∀ s, R s s) (n : UInt64) (position : Position) :
    Moves R (stopAt n position) := by
  intro s o h
  cases h
  exact hrefl s

theorem Moves.andThen (htrans : ∀ {s s₁ s₂}, R s s₁ → R s₁ s₂ → R s s₂) (hf : Moves R f)
    (hg : Moves R g) : Moves R (andThen f g) := by
  intro s o h
  rcases andThen_eq_some h with ⟨v, s₁, hfirst, hrest⟩ | ⟨hstop, -⟩
  · exact htrans (hf _ _ hfirst) (hg _ _ hrest)
  · exact hf _ _ hstop

theorem Moves.choose (hrefl : ∀ s, R s s) (condition : Expr) (hf : Moves R f) (hg : Moves R g) :
    Moves R (choose condition f g) := by
  intro s o h
  rcases choose_eq_some h with ⟨e, -, rfl⟩ | ⟨-, h⟩ | ⟨-, h⟩
  · exact hrefl s
  · exact hf s o h
  · exact hg s o h

theorem Moves.runLoop (hrefl : ∀ s, R s s) (htrans : ∀ {s s₁ s₂}, R s s₁ → R s₁ s₂ → R s s₂)
    (hf : Moves R f) : Moves R (runLoop limit position condition f bound count) := by
  induction bound generalizing count with
  | zero => exact fun s o h => by cases h
  | succ bound ih =>
    rw [runLoop_succ]
    refine .choose hrefl condition ?_ (moves_skip hrefl)
    split
    · exact moves_stopAt hrefl _ position
    · exact hf.andThen htrans ih

theorem congruent_moves (hrefl : ∀ s, R s s) (htrans : ∀ {s s₁ s₂}, R s s₁ → R s₁ s₂ → R s s₂)
    (limit : Option UInt64) (bound : Nat) :
    Congruent limit limit bound bound fun f _ => Moves R f where
  skip := moves_skip hrefl
  andThen := .andThen htrans
  choose condition _ _ _ _ := .choose hrefl condition
  loop _ _ _ _ hf := hf.runLoop hrefl htrans

end Moves

/-! ## Values that are left -/

section LeavesNothing

variable {st : Statement} {v : Value}

/-- When the evaluation goes on, it leaves no value. -/
def LeavesNothing (f : State → Option Outcome) : Prop :=
  ∀ s v s', f s = some ⟨.ok (.next v), s'⟩ → v = none

theorem leavesNothing_skip : LeavesNothing skip := by
  intro s v s' h
  cases h
  rfl

/-- The last evaluation decides what is left. -/
theorem LeavesNothing.andThen (hg : LeavesNothing g) : LeavesNothing (andThen f g) := by
  intro s v s' h
  rcases andThen_eq_some h with ⟨_, s₁, -, h⟩ | ⟨-, hne⟩
  · exact hg s₁ v s' h
  · exact absurd rfl (hne v)

theorem LeavesNothing.choose (hf : LeavesNothing f) (hg : LeavesNothing g) :
    LeavesNothing (choose condition f g) := by
  intro s v s' h
  rcases choose_eq_some h with ⟨e, -, h⟩ | ⟨-, h⟩ | ⟨-, h⟩
  · cases h
  · exact hf s v s' h
  · exact hg s v s' h

theorem leavesNothing_runBlock (body : List Statement) :
    LeavesNothing (runBlock limit bound body) := by
  induction body with
  | nil =>
    rw [runBlock_nil]
    exact leavesNothing_skip
  | cons st body ih =>
    rw [runBlock_cons]
    exact ih.andThen

theorem leavesNothing_runBranches (branches : List (Expr × List Statement))
    (hf : LeavesNothing f) : LeavesNothing (runBranches limit bound branches f) := by
  induction branches with
  | nil =>
    rw [runBranches_nil]
    exact hf
  | cons b branches ih =>
    obtain ⟨condition, body⟩ := b
    rw [runBranches_cons]
    exact (leavesNothing_runBlock body).choose ih

theorem leavesNothing_runOtherwise (otherwise : Option (List Statement)) :
    LeavesNothing (runOtherwise limit bound otherwise) := by
  cases otherwise with
  | none =>
    rw [runOtherwise_none]
    exact leavesNothing_skip
  | some body =>
    rw [runOtherwise_some]
    exact leavesNothing_runBlock body

theorem leavesNothing_runLoop : LeavesNothing (runLoop limit position condition f bound count) := by
  induction bound generalizing count with
  | zero => exact fun _ _ _ h => by cases h
  | succ bound ih =>
    rw [runLoop_succ]
    refine .choose ?_ leavesNothing_skip
    split
    · exact fun _ _ _ h => by cases h
    · exact ih.andThen

/-- Only an expression leaves a value, and it does nothing else. -/
theorem eq_expression_of_run (h : run limit bound st s = some ⟨.ok (.next (some v)), s'⟩) :
    ∃ e position, st = .expression e position ∧ e.eval s.env = .ok v ∧ s' = s := by
  cases st with
  | expression e position =>
    rw [run] at h
    cases heval : e.eval s.env with
    | error trouble => rw [heval] at h; cases h
    | ok w =>
      rw [heval] at h
      cases h
      exact ⟨e, position, rfl, heval, rfl⟩
  | assignment name e position =>
    rw [run] at h
    cases heval : e.eval s.env <;> rw [heval] at h <;> cases h
  | print es position =>
    rw [run] at h
    cases heval : Expr.evalAll s.env es <;> rw [heval] at h <;> cases h
  | termination position => rw [run] at h; cases h
  | invalid complaint => rw [run] at h; cases h
  | conditional branches otherwise position =>
    rw [run_conditional] at h
    cases leavesNothing_runBranches branches (leavesNothing_runOtherwise otherwise) _ _ _ h
  | loop condition body position =>
    rw [run_loop] at h
    cases leavesNothing_runLoop _ _ _ h

end LeavesNothing

end Statement

end DarjaLang
