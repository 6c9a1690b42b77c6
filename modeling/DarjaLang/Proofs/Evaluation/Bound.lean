import DarjaLang.Proofs.Evaluation.Cause
import DarjaLang.Proofs.Evaluation.Steps

/-!
# Evaluation without a bound

The bound on the passes through a loop only says how long one is ready to wait: a larger one never
changes an outcome.  So an outcome that some bound leads to is the outcome of the program.

* `Statement.Evaluates limit st s o` says that the evaluation ends, and with which outcome;
  `Statement.Completes limit body s s'` that all statements of a block are evaluated one after the
  other.  There is at most one outcome (`Evaluates.unique`).
* `exists_evaluates`: with a limit on loops every evaluation ends.
-/

set_option autoImplicit false

namespace DarjaLang

namespace Statement

variable {limit : Option UInt64} {bound bound' count : Nat} {position : Position}
  {condition : Expr} {f f' g g' : State → Option Outcome} {st : Statement} {body : List Statement}
  {s s' : State} {o o' : Outcome}

/-! ## Larger bounds -/

/-- Where the first evaluation ends, the second one ends with the same outcome. -/
def Refines (f f' : State → Option Outcome) : Prop := ∀ s o, f s = some o → f' s = some o

theorem Refines.rfl : Refines f f := fun _ _ h => h

theorem Refines.andThen (hf : Refines f f') (hg : Refines g g') :
    Refines (andThen f g) (andThen f' g') := by
  intro s o h
  rcases andThen_eq_some h with ⟨v, s', hnext, hlast⟩ | ⟨hstop, hne⟩
  · rw [andThen_of_next (hf _ _ hnext)]
    exact hg _ _ hlast
  · exact andThen_of_stops (hf _ _ hstop) hne

theorem Refines.choose (condition : Expr) (hf : Refines f f') (hg : Refines g g') :
    Refines (choose condition f g) (choose condition f' g') := by
  intro s o h
  rcases choose_eq_some h with ⟨e, he, rfl⟩ | ⟨ht, h⟩ | ⟨hfalse, h⟩
  · exact choose_of_error he
  · rw [choose_of_true ht]
    exact hf s o h
  · rw [choose_of_false hfalse]
    exact hg s o h

theorem Refines.runLoop (hf : Refines f f') (hbound : bound ≤ bound') :
    Refines (runLoop limit position condition f bound count)
      (runLoop limit position condition f' bound' count) := by
  induction bound generalizing bound' count with
  | zero => exact fun s o h => by cases h
  | succ bound ih =>
    cases bound' with
    | zero => exact absurd hbound (Nat.not_succ_le_zero bound)
    | succ bound' =>
      rw [runLoop_succ, runLoop_succ]
      refine .choose condition ?_ .rfl
      split
      · exact .rfl
      · exact .andThen hf (ih (Nat.le_of_succ_le_succ hbound))

theorem congruent_refines (limit : Option UInt64) (hbound : bound ≤ bound') :
    Congruent limit limit bound bound' Refines where
  skip := .rfl
  andThen := .andThen
  choose condition _ _ _ _ := .choose condition
  loop _ _ _ _ hf := hf.runLoop hbound

/-- Statements that contain no others look at neither the limit nor the bound. -/
theorem run_eq_of_isSimple (h : st.IsSimple) (limit limit' : Option UInt64) (bound bound' : Nat) :
    run limit bound st = run limit' bound' st := by
  funext s
  cases st with
  | conditional => exact h.elim
  | loop => exact h.elim
  | _ => rw [run, run]

/-- **A larger bound changes no outcome.** -/
theorem run_mono (hbound : bound ≤ bound') (h : run limit bound st s = some o) :
    run limit bound' st s = some o := by
  refine (builtOf_simple st).related (congruent_refines limit hbound) (fun st hsimple => ?_) s o h
  rw [run_eq_of_isSimple hsimple limit limit bound bound']
  exact .rfl

theorem runBlock_mono (hbound : bound ≤ bound') (h : runBlock limit bound body s = some o) :
    runBlock limit bound' body s = some o :=
  (congruent_refines limit hbound).runBlock (fun _ _ _ _ => run_mono hbound) s o h

/-! ## Outcomes -/

/-- The evaluation of a statement ends with an outcome. -/
def Evaluates (limit : Option UInt64) (st : Statement) (s : State) (o : Outcome) : Prop :=
  ∃ bound, run limit bound st s = some o

/-- The statements are evaluated one after the other, from one state to another. -/
def Completes (limit : Option UInt64) (body : List Statement) (s s' : State) : Prop :=
  ∃ bound, runBlock limit bound body s = some ⟨.ok (.next none), s'⟩

/-- An evaluation has at most one outcome. -/
theorem Evaluates.unique (h : Evaluates limit st s o) (h' : Evaluates limit st s o') : o' = o := by
  obtain ⟨bound, h⟩ := h
  obtain ⟨bound', h'⟩ := h'
  have h := run_mono (Nat.le_max_left bound bound') h
  have h' := run_mono (Nat.le_max_right bound bound') h'
  rw [h] at h'
  cases h'
  rfl

/-- A block that goes on leaves no value. -/
theorem completes_of_runBlock {v : Option Value}
    (h : runBlock limit bound body s = some ⟨.ok (.next v), s'⟩) : Completes limit body s s' := by
  refine ⟨bound, ?_⟩
  induction body generalizing s with
  | nil =>
    rw [runBlock_nil] at h ⊢
    cases h
    rfl
  | cons st body ih =>
    rw [runBlock_cons] at h ⊢
    rcases andThen_eq_some h with ⟨w, s₁, hnext, hrest⟩ | ⟨-, hne⟩
    · rw [andThen_of_next hnext]
      exact ih hrest
    · exact absurd rfl (hne v)

theorem Completes.nil : Completes limit [] s s := ⟨0, by rw [runBlock_nil]; rfl⟩

theorem Completes.cons {s₁ : State} {v : Option Value}
    (hfirst : Evaluates limit st s ⟨.ok (.next v), s₁⟩) (hrest : Completes limit body s₁ s') :
    Completes limit (st :: body) s s' := by
  obtain ⟨bound, hfirst⟩ := hfirst
  obtain ⟨bound', hrest⟩ := hrest
  refine ⟨max bound bound', ?_⟩
  rw [runBlock_cons, andThen_of_next (run_mono (Nat.le_max_left bound bound') hfirst)]
  exact runBlock_mono (Nat.le_max_right bound bound') hrest

/-! ## Limits -/

/-- The evaluation ends from every state. -/
def Ends (f : State → Option Outcome) : Prop := ∀ s, ∃ o, f s = some o

theorem Ends.andThen (hf : Ends f) (hg : Ends g) : Ends (andThen f g) := by
  intro s
  obtain ⟨o, ho⟩ := hf s
  by_cases hnext : ∃ v, o.result = .ok (.next v)
  · obtain ⟨result, s'⟩ := o
    obtain ⟨v, rfl⟩ := hnext
    rw [andThen_of_next ho]
    exact hg s'
  · exact ⟨o, andThen_of_stops ho fun v hv => hnext ⟨v, hv⟩⟩

theorem Ends.choose (condition : Expr) (hf : Ends f) (hg : Ends g) :
    Ends (choose condition f g) := by
  intro s
  cases hholds : condition.holds s.env with
  | error e => exact ⟨_, choose_of_error hholds⟩
  | ok b =>
    cases b with
    | false =>
      rw [choose_of_false hholds]
      exact hg s
    | true =>
      rw [choose_of_true hholds]
      exact hf s

/-- A run of a loop ends if it may be tested once more than the limit allows passes. -/
theorem Ends.runLoop {n : UInt64} (hf : Ends f) (hcount : count ≤ n.toNat)
    (hbound : n.toNat < count + bound) :
    Ends (runLoop (some n) position condition f bound count) := by
  induction bound generalizing count with
  | zero => omega
  | succ bound ih =>
    rw [runLoop_succ]
    refine .choose condition ?_ fun s => ⟨_, rfl⟩
    split
    · exact fun s => ⟨_, rfl⟩
    · next hlimit =>
      have hlt : count < n.toNat := reachedLimit?_eq_none_iff.1 hlimit n rfl
      exact hf.andThen (ih hlt (by omega))

/-- **With a limit on loops every evaluation ends.** -/
theorem exists_evaluates (n : UInt64) (st : Statement) (s : State) :
    ∃ o, Evaluates (some n) st s o := by
  have hends : Congruent (some n) (some n) (n.toNat + 1) (n.toNat + 1) fun f _ => Ends f := {
    skip := fun s => ⟨_, rfl⟩
    andThen := .andThen
    choose := fun condition _ _ _ _ => .choose condition
    loop := fun _ _ _ _ hf => hf.runLoop (Nat.zero_le _) (by omega) }
  obtain ⟨o, ho⟩ := (builtOf_simple st).related hends
    (fun _ hsimple s => (run_of_isSimple hsimple s).imp fun _ h => h.1) s
  exact ⟨o, _, ho⟩

end Statement

end DarjaLang
