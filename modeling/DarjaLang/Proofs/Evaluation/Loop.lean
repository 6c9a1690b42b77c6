import DarjaLang.Proofs.Evaluation.Bound
import DarjaLang.Proofs.Evaluation.Cause

/-!
# The runs of loops in an evaluation

In the evaluation of a statement a loop may be run many times, and each run counts its own passes.

* `Statement.Comes limit st s inner s'` says that the evaluation of `st` in `s` comes to that of
  `inner`, a statement of some body, in `s'`.  If `inner` is a loop, that is one run of it.
* `Statement.Passes` follows a run of a loop through so many executions of its body, and
  `Statement.HoldsAfter` says that there is a run whose condition holds after so many.
* An error stops the evaluation where it arises (`exists_of_runBlock_error`,
  `exists_of_runBranches_error`, `exists_of_runLoop_error`).  So an evaluation that ends at the
  limit has come to a run of a loop that has used it up (`exists_run_of_limit`).
-/

set_option autoImplicit false

namespace DarjaLang

namespace Statement

/-- A run of a loop has executed its body so many times, and has come from one state to another. -/
inductive Passes (limit : Option UInt64) (condition : Expr) (body : List Statement) :
    (count : Nat) → State → State → Prop
  | zero {s : State} : Passes limit condition body 0 s s
  | succ {count : Nat} {s s₁ s₂ : State} (h : Passes limit condition body count s s₁)
      (hholds : condition.holds s₁.env = .ok true) (hlimit : reachedLimit? limit count = none)
      (hbody : Completes limit body s₁ s₂) : Passes limit condition body (count + 1) s s₂

/-- The body that a conditional chooses. -/
inductive Chosen (env : Environment) :
    List (Expr × List Statement) → Option (List Statement) → List Statement → Prop
  | branch {condition : Expr} {body : List Statement} {branches : List (Expr × List Statement)}
      {otherwise : Option (List Statement)} (h : condition.holds env = .ok true) :
      Chosen env ((condition, body) :: branches) otherwise body
  | next {condition : Expr} {passed body : List Statement}
      {branches : List (Expr × List Statement)} {otherwise : Option (List Statement)}
      (h : condition.holds env = .ok false) (hrest : Chosen env branches otherwise body) :
      Chosen env ((condition, passed) :: branches) otherwise body
  | otherwise {body : List Statement} : Chosen env [] (some body) body

/-- The evaluation of a statement comes to that of a statement of one of its bodies, at any depth,
or is the evaluation of the statement itself. -/
inductive Comes (limit : Option UInt64) : Statement → State → Statement → State → Prop
  | here {st : Statement} {s : State} : Comes limit st s st s
  | conditional {branches : List (Expr × List Statement)} {otherwise : Option (List Statement)}
      {position : Position} {before after : List Statement} {st inner : Statement}
      {s s₁ s₂ : State} (hchosen : Chosen s.env branches otherwise (before ++ st :: after))
      (hbefore : Completes limit before s s₁) (h : Comes limit st s₁ inner s₂) :
      Comes limit (.conditional branches otherwise position) s inner s₂
  | loop {condition : Expr} {before after : List Statement} {st inner : Statement}
      {position : Position} {count : Nat} {s s₁ s₂ s₃ : State}
      (hpasses : Passes limit condition (before ++ st :: after) count s s₁)
      (hholds : condition.holds s₁.env = .ok true) (hlimit : reachedLimit? limit count = none)
      (hbefore : Completes limit before s₁ s₂) (h : Comes limit st s₂ inner s₃) :
      Comes limit (.loop condition (before ++ st :: after) position) s inner s₃

/-- In some run of a loop, the condition holds after exactly so many executions of the body. -/
def HoldsAfter (limit : Option UInt64) (st : Statement) (s : State) (count : Nat) : Prop :=
  ∃ condition body position s₀ s₁, Comes limit st s (.loop condition body position) s₀ ∧
    Passes limit condition body count s₀ s₁ ∧ condition.holds s₁.env = .ok true

/-- No run of a loop executes its body more than `n` times: where the condition holds after so many
executions, there is one more. -/
def LoopsWithin (limit : Option UInt64) (st : Statement) (s : State) (n : Nat) : Prop :=
  ∀ count, HoldsAfter limit st s count → count + 1 ≤ n

variable {limit : Option UInt64} {bound bound' count : Nat} {position : Position}
  {condition : Expr} {st : Statement} {body : List Statement} {s s₀ s' : State} {e : Trouble}

/-- No run of a loop executes its body more often than the limit says. -/
theorem Passes.count_le {n : UInt64} (h : Passes (some n) condition body count s s') :
    count ≤ n.toNat := by
  cases h with
  | zero => exact Nat.zero_le _
  | succ _ _ hlimit _ => exact reachedLimit?_eq_none_iff.1 hlimit n rfl

/-- What holds of all statements in the bodies of a conditional holds of the body it chooses. -/
theorem Chosen.forall_mem {P : Statement → Prop} {env : Environment}
    {branches : List (Expr × List Statement)} {otherwise : Option (List Statement)}
    (h : Chosen env branches otherwise body) (hbranches : ∀ b ∈ branches, ∀ st ∈ b.2, P st)
    (hotherwise : ∀ body ∈ otherwise, ∀ st ∈ body, P st) : ∀ st ∈ body, P st := by
  induction h with
  | branch => exact hbranches _ List.mem_cons_self
  | next _ _ ih => exact ih (fun b hb => hbranches b (List.mem_cons_of_mem _ hb)) hotherwise
  | otherwise => exact hotherwise _ rfl

/-! ## Where an error arises -/

/-- A block fails in one of its statements. -/
theorem exists_of_runBlock_error (h : runBlock limit bound body s = some ⟨.error e, s'⟩) :
    ∃ before st after s₁, body = before ++ st :: after ∧ Completes limit before s s₁ ∧
      run limit bound st s₁ = some ⟨.error e, s'⟩ := by
  induction body generalizing s with
  | nil => rw [runBlock_nil] at h; cases h
  | cons first body ih =>
    rw [runBlock_cons] at h
    rcases andThen_eq_some h with ⟨v, s₁, hfirst, hrest⟩ | ⟨hfirst, -⟩
    · obtain ⟨before, st, after, s₂, rfl, hbefore, hst⟩ := ih hrest
      exact ⟨first :: before, st, after, s₂, rfl, .cons ⟨bound, hfirst⟩ hbefore, hst⟩
    · exact ⟨[], first, body, s, rfl, .nil, hfirst⟩

/-- A conditional fails in a condition or in the body that it chooses. -/
theorem exists_of_runBranches_error {branches : List (Expr × List Statement)}
    {otherwise : Option (List Statement)}
    (h : runBranches limit bound branches (runOtherwise limit bound otherwise) s =
      some ⟨.error e, s'⟩) :
    (∃ b ∈ branches, b.1.Blames e) ∨ ∃ body, Chosen s.env branches otherwise body ∧
      runBlock limit bound body s = some ⟨.error e, s'⟩ := by
  induction branches with
  | nil =>
    rw [runBranches_nil] at h
    cases otherwise with
    | none => rw [runOtherwise_none] at h; cases h
    | some body =>
      rw [runOtherwise_some] at h
      exact .inr ⟨body, .otherwise, h⟩
  | cons b branches ih =>
    obtain ⟨condition, body⟩ := b
    rw [runBranches_cons] at h
    rcases choose_eq_some h with ⟨_, hfails, heq⟩ | ⟨hholds, hbody⟩ | ⟨hholds, hrest⟩
    · cases heq
      exact .inl ⟨_, List.mem_cons_self, Expr.blames_of_holds _ condition e hfails⟩
    · exact .inr ⟨body, .branch hholds, hbody⟩
    · rcases ih hrest with ⟨b, hb, hblames⟩ | ⟨body, hchosen, hbody⟩
      · exact .inl ⟨b, List.mem_cons_of_mem _ hb, hblames⟩
      · exact .inr ⟨body, .next hholds hchosen, hbody⟩

/-- A run of a loop fails in its condition, at the limit, or in its body. -/
theorem exists_of_runLoop_error (hpasses : Passes limit condition body count s₀ s)
    (h : runLoop limit position condition (runBlock limit bound body) bound' count s =
      some ⟨.error e, s'⟩) :
    condition.Blames e ∨
      (∃ count n, Passes limit condition body count s₀ s' ∧
        condition.holds s'.env = .ok true ∧ reachedLimit? limit count = some n ∧
        e = ⟨.iterationLimit n, position⟩) ∨
      ∃ count s₁, Passes limit condition body count s₀ s₁ ∧
        condition.holds s₁.env = .ok true ∧ reachedLimit? limit count = none ∧
        runBlock limit bound body s₁ = some ⟨.error e, s'⟩ := by
  induction bound' generalizing count s with
  | zero => cases h
  | succ bound' ih =>
    rw [runLoop_succ] at h
    rcases choose_eq_some h with ⟨_, hfails, heq⟩ | ⟨hholds, hpass⟩ | ⟨-, hskip⟩
    · cases heq
      exact .inl (Expr.blames_of_holds _ condition e hfails)
    · cases hlimit : reachedLimit? limit count with
      | some n =>
        rw [hlimit] at hpass
        cases hpass
        exact .inr (.inl ⟨count, n, hpasses, hholds, hlimit, rfl⟩)
      | none =>
        rw [hlimit] at hpass
        rcases andThen_eq_some hpass with ⟨v, s₁, hbody, hrest⟩ | ⟨hbody, -⟩
        · exact ih (hpasses.succ hholds hlimit (completes_of_runBlock hbody)) hrest
        · exact .inr (.inr ⟨count, s, hpasses, hholds, hlimit, hbody⟩)
    · cases hskip

/-- **An evaluation that ends at the limit has come to a run of a loop that has used it up**: its
condition holds after as many executions of its body as the limit allows. -/
theorem exists_run_of_limit {n : UInt64}
    (h : run limit bound st s = some ⟨.error ⟨.iterationLimit n, position⟩, s'⟩) :
    limit = some n ∧ ∃ condition body s₀, Comes limit st s (.loop condition body position) s₀ ∧
      Passes limit condition body n.toNat s₀ s' ∧ condition.holds s'.env = .ok true := by
  have hst := builtOf_simple st
  induction hst generalizing s with
  | leaf hsimple =>
    obtain ⟨o, hrun, -, hcause⟩ := run_of_isSimple hsimple _
    cases h.symm.trans hrun
    exact absurd rfl (hcause _ n rfl)
  | conditional _ _ hbranches hotherwise =>
    rw [run_conditional] at h
    rcases exists_of_runBranches_error h with ⟨b, -, hblames⟩ | ⟨body, hchosen, hbody⟩
    · exact hblames.ofValues.elim
    obtain ⟨before, st, after, s₁, rfl, hbefore, hst⟩ := exists_of_runBlock_error hbody
    obtain ⟨hlimit, condition, body, s₀, hcomes, hrun⟩ :=
      hchosen.forall_mem hbranches hotherwise st (by simp) hst
    exact ⟨hlimit, condition, body, s₀, .conditional hchosen hbefore hcomes, hrun⟩
  | @loop condition body _ _ ih =>
    rw [run_loop] at h
    rcases exists_of_runLoop_error .zero h with
      hblames | ⟨count, m, hpasses, hholds, hreached, he⟩ |
        ⟨count, s₁, hpasses, hholds, hlimit, hbody⟩
    · exact hblames.ofValues.elim
    · cases he
      obtain ⟨rfl, hle⟩ := reachedLimit?_eq_some_iff.1 hreached
      obtain rfl : count = n.toNat := Nat.le_antisymm hpasses.count_le hle
      exact ⟨rfl, condition, body, s, .here, hpasses, hholds⟩
    · obtain ⟨before, st, after, s₂, rfl, hbefore, hst⟩ := exists_of_runBlock_error hbody
      obtain ⟨hsome, condition', body', s₀, hcomes, hrun⟩ := ih st (by simp) hst
      exact ⟨hsome, condition', body', s₀, .loop hpasses hholds hlimit hbefore hcomes, hrun⟩

end Statement

end DarjaLang
