import DarjaLang.Proofs.Evaluation.Steps
import DarjaLang.Proofs.Machine.Operation

/-!
# Evaluation on a machine

* `eval` evaluates an expression.  It is built of the operators and functions of a machine, and
  never faults (`eval_eq`).
* `run` evaluates a statement.  A loop counts its passes in a word of 64 bits: it looks at the limit
  and then increases the counter, which faults at the largest word.
* `Follows` says that a machine does what is expected of it, or else that there is no limit and a
  counter was used up.  The counter of a loop never exceeds the limit, so every limit is kept, up to
  the largest word (`ne_size_of_reachedLimit?`).
* `tracks_run` is the result, by the ways in which statements are put together.
* `runLoop_endless` says that without a limit the fault is met.
-/

set_option autoImplicit false

namespace DarjaLang

namespace Machine

open Attempt

/-! ## Expressions -/

mutual

/-- The value of an expression. -/
def eval (env : Environment) : Expr → Attempt Trouble Value
  | .literal value position => (sure (Value.ofLiteral? value)).placedAt position
  | .var name position => (sure (env.lookup name)).placedAt position
  | .unary op operand position => do
    let v ← eval env operand
    (applyUnary op v).placedAt position
  | .binary (.connective op) left right position => do
    let a ← eval env left
    let p ← (sure a.toBoolean?).placedAt position
    if p = op.deciding then return .boolean p
    let b ← eval env right
    (applyBinary (.connective op) a b).placedAt position
  | .binary op left right position => do
    let a ← eval env left
    let b ← eval env right
    (applyBinary op a b).placedAt position
  | .call name arguments position => do
    let vs ← evalAll env arguments
    (callFunction name vs).placedAt position

/-- The values of some expressions. -/
def evalAll (env : Environment) : List Expr → Attempt Trouble (List Value)
  | [] => return []
  | e :: es => do
    let v ← eval env e
    let vs ← evalAll env es
    return v :: vs

end

/-- Whether a condition holds. -/
def holds (env : Environment) (condition : Expr) : Attempt Trouble Bool := do
  let v ← eval env condition
  (sure v.toBoolean?).placedAt condition.position

variable {env : Environment}

mutual

/-- **No expression faults.** -/
theorem eval_eq : (e : Expr) → eval env e = sure (e.eval env)
  | .literal value position => by
    rw [eval, Expr.eval, sure_placedAt]
  | .var name position => by
    rw [eval, Expr.eval, sure_placedAt]
  | .unary op operand position => by
    rw [eval, Expr.eval, eval_eq operand]
    refine sure_bind fun v => ?_
    rw [applyUnary_eq, sure_placedAt]
  | .binary op left right position => by
    have hleft := eval_eq left
    have hright := eval_eq right
    cases op with
    | connective op =>
      rw [eval, Expr.eval, hleft]
      refine sure_bind fun a => sure_bind fun p => ?_
      split
      · rfl
      · rw [hright]
        refine sure_bind fun b => ?_
        rw [applyBinary_eq]
        rfl
    | _ =>
      rw [eval, Expr.eval, hleft]
      · refine sure_bind fun a => ?_
        rw [hright]
        refine sure_bind fun b => ?_
        rw [applyBinary_eq, sure_placedAt]
      all_goals nofun
  | .call name arguments position => by
    rw [eval, Expr.eval, evalAll_eq arguments]
    refine sure_bind fun vs => ?_
    rw [callFunction_eq, sure_placedAt]

theorem evalAll_eq : (es : List Expr) → evalAll env es = sure (Expr.evalAll env es)
  | [] => by
    rw [evalAll, Expr.evalAll]
    rfl
  | e :: es => by
    rw [evalAll, Expr.evalAll, eval_eq e, evalAll_eq es]
    exact sure_bind fun v => sure_bind fun vs => rfl

end

theorem holds_eq (condition : Expr) : holds env condition = sure (condition.holds env) := by
  rw [holds, eval_eq]
  exact sure_bind fun v => rfl

/-! ## Statements -/

/-- An evaluation on a machine. -/
abbrev Run := State → Machine (Option Outcome)

/-- An evaluation of expressions, and what is done with the result. -/
def attempt {α : Type} (x : Attempt Trouble α) (act : α → Outcome) (s : State) :
    Machine (Option Outcome) := do
  match ← x.run with
  | .error e => return some ⟨.error e, s⟩
  | .ok a => return some (act a)

/-- One evaluation and, if the program then goes on, another. -/
def andThen (f g : Run) (s : State) : Machine (Option Outcome) := do
  match ← f s with
  | some ⟨.ok (.next _), s⟩ => g s
  | stopped => return stopped

/-- One evaluation if the condition holds, and another if it does not. -/
def choose (condition : Expr) (f g : Run) (s : State) : Machine (Option Outcome) := do
  match ← (holds s.env condition).run with
  | .error e => return some ⟨.error e, s⟩
  | .ok true => f s
  | .ok false => g s

/-- An evaluation that needs nothing of the machine. -/
def plain (f : State → Option Outcome) (s : State) : Machine (Option Outcome) := .ok (f s)

/-- The next number of a counter. -/
def increment (count : UInt64) : Machine UInt64 :=
  if count.toNat + 1 = UInt64.size then .error .counter else .ok (count + 1)

/-- A run of a loop after `count` passes, for at most `bound` further tests of its condition. -/
def runLoop (limit : Option UInt64) (position : Position) (condition : Expr) (body : Run) :
    (bound : Nat) → (count : UInt64) → Run
  | 0, _ => plain fun _ => none
  | bound + 1, count =>
    choose condition
      (match limit.filter (· ≤ count) with
        | some n => plain (Statement.stopAt n position)
        | none => fun s => do
          let count ← increment count
          andThen body (runLoop limit position condition body bound count) s)
      (plain Statement.skip)

mutual

/-- Evaluates a statement. -/
def run (limit : Option UInt64) (bound : Nat) : Statement → State → Machine (Option Outcome)
  | .assignment name value _, s =>
    attempt (eval s.env value) (fun v => ⟨.ok (.next none), ⟨s.env.assign name v, s.printed⟩⟩) s
  | .expression value _, s =>
    attempt (eval s.env value) (fun v => ⟨.ok (.next (some v)), s⟩) s
  | .print values _, s =>
    attempt (evalAll s.env values) (fun vs =>
      ⟨.ok (.next none), ⟨s.env, s.printed.push (" ".intercalate (vs.map Value.text))⟩⟩) s
  | .conditional branches otherwise _, s =>
    runBranches limit bound branches (runOtherwise limit bound otherwise) s
  | .loop condition body position, s =>
    runLoop limit position condition (runBlock limit bound body) bound 0 s
  | .termination _, s => .ok (some ⟨.ok .terminate, s⟩)
  | .invalid complaint, s => .ok (some ⟨.error (complaint.map .unparsed), s⟩)

/-- Evaluates statements in order, up to the first one that fails or ends the program. -/
def runBlock (limit : Option UInt64) (bound : Nat) : List Statement → Run
  | [] => plain Statement.skip
  | st :: rest => andThen (run limit bound st) (runBlock limit bound rest)

/-- Evaluates the first branch whose condition holds, or else what is done `otherwise`. -/
def runBranches (limit : Option UInt64) (bound : Nat) :
    List (Expr × List Statement) → (otherwise : Run) → Run
  | [], otherwise => otherwise
  | (condition, body) :: rest, otherwise =>
    choose condition (runBlock limit bound body) (runBranches limit bound rest otherwise)

/-- Evaluates the last block of a conditional, if there is one. -/
def runOtherwise (limit : Option UInt64) (bound : Nat) : Option (List Statement) → Run
  | none => plain Statement.skip
  | some body => runBlock limit bound body

end

/-! ## What a machine does and what is expected of it -/

/-- The machine does what is expected, or there is no limit and a counter was used up. -/
inductive Follows (limit : Option UInt64) (bound : Nat) {α : Type} : Machine α → α → Prop
  | agrees (a : α) : Follows limit bound (.ok a) a
  | usedUp (a : α) (hlimit : limit = none) (hbound : UInt64.size ≤ bound) :
    Follows limit bound (.error .counter) a

variable {limit : Option UInt64} {bound : Nat}

theorem Follows.bind {α β : Type} {x : Machine α} {a : α} {g : α → Machine β} {b : β}
    (hx : Follows limit bound x a) (hg : Follows limit bound (g a) b) :
    Follows limit bound (x >>= g) b := by
  cases hx with
  | agrees => exact hg
  | usedUp _ hlimit hbound => exact .usedUp b hlimit hbound

theorem Follows.eq_ok_or {α : Type} {x : Machine α} {a : α} (h : Follows limit bound x a) :
    x = .ok a ∨ limit = none ∧ UInt64.size ≤ bound ∧ x = .error .counter := by
  cases h with
  | agrees => exact .inl rfl
  | usedUp _ hlimit hbound => exact .inr ⟨hlimit, hbound, rfl⟩

/-- The machine does what is expected of it in every state. -/
def Tracks (limit : Option UInt64) (bound : Nat) (f : Run) (f' : State → Option Outcome) : Prop :=
  ∀ s, Follows limit bound (f s) (f' s)

variable {position : Position} {condition : Expr} {f g : Run} {f' g' : State → Option Outcome}

theorem tracks_plain : Tracks limit bound (plain f') f' := fun s => .agrees (f' s)

theorem Tracks.andThen (hf : Tracks limit bound f f') (hg : Tracks limit bound g g') :
    Tracks limit bound (andThen f g) (Statement.andThen f' g') := by
  intro s
  refine (hf s).bind ?_
  rw [Statement.andThen]
  rcases f' s with _ | ⟨result, s'⟩
  · exact .agrees _
  · cases result with
    | error e => exact .agrees _
    | ok flow =>
      cases flow with
      | terminate => exact .agrees _
      | next v => exact hg s'

theorem Tracks.choose (hf : Tracks limit bound f f') (hg : Tracks limit bound g g') :
    Tracks limit bound (choose condition f g) (Statement.choose condition f' g') := by
  intro s
  rw [Machine.choose, Statement.choose, holds_eq]
  cases condition.holds s.env with
  | error e => exact .agrees _
  | ok b =>
    cases b with
    | false => exact hg s
    | true => exact hf s

/-- The limit is looked at in words as it is in numbers. -/
theorem filter_eq_reachedLimit? (count : UInt64) :
    limit.filter (· ≤ count) = reachedLimit? limit count.toNat := by
  simp only [reachedLimit?, UInt64.le_iff_toNat_le]

theorem increment_of_ne {count : UInt64} (h : count.toNat + 1 ≠ UInt64.size) :
    increment count = .ok (count + 1) ∧ (count + 1).toNat = count.toNat + 1 := by
  have hlt := count.toNat_lt_size
  refine ⟨if_neg h, ?_⟩
  rw [UInt64.toNat_add, UInt64.toNat_one]
  exact Nat.mod_eq_of_lt (Nat.lt_of_le_of_ne hlt h)

/-- **Below a limit the counter of a loop has a next number**, however large the limit is. -/
theorem ne_size_of_reachedLimit? {count n : UInt64}
    (h : reachedLimit? (some n) count.toNat = none) : count.toNat + 1 ≠ UInt64.size := by
  have hcount := reachedLimit?_eq_none_iff.1 h n rfl
  have hn := n.toNat_lt_size
  omega

/-- A loop counts in words what is expected to be counted in numbers. -/
theorem Tracks.runLoop {bound' : Nat} {count : UInt64} (hf : Tracks limit bound f f')
    (hbound : count.toNat + bound' ≤ bound) :
    Tracks limit bound (runLoop limit position condition f bound' count)
      (Statement.runLoop limit position condition f' bound' count.toNat) := by
  induction bound' generalizing count with
  | zero => exact tracks_plain
  | succ bound' ih =>
    rw [Machine.runLoop, Statement.runLoop_succ, filter_eq_reachedLimit?]
    refine .choose ?_ tracks_plain
    rcases hreached : reachedLimit? limit count.toNat with _ | n
    · intro s
      by_cases hcount : count.toNat + 1 = UInt64.size
      · have hlimit : limit = none := by
          cases limit with
          | none => rfl
          | some n => exact absurd hcount (ne_size_of_reachedLimit? hreached)
        rw [increment, if_pos hcount]
        exact .usedUp _ hlimit (by omega)
      · obtain ⟨hincrement, hnext⟩ := increment_of_ne hcount
        rw [hincrement, ← hnext]
        exact hf.andThen (ih (by omega)) s
    · exact tracks_plain

mutual

/-- **A machine evaluates a statement as expected**, as long as its counters last. -/
theorem tracks_run : (st : Statement) →
    Tracks limit bound (run limit bound st) (st.run limit bound)
  | .assignment name value position => fun s => by
    rw [run, Statement.run, eval_eq]
    cases value.eval s.env <;> exact .agrees _
  | .expression value position => fun s => by
    rw [run, Statement.run, eval_eq]
    cases value.eval s.env <;> exact .agrees _
  | .print values position => fun s => by
    rw [run, Statement.run, evalAll_eq]
    cases Expr.evalAll s.env values <;> exact .agrees _
  | .conditional branches none position => fun s => by
    rw [run, runOtherwise, Statement.run_conditional, Statement.runOtherwise_none]
    exact tracks_runBranches branches tracks_plain s
  | .conditional branches (some body) position => fun s => by
    rw [run, runOtherwise, Statement.run_conditional, Statement.runOtherwise_some]
    exact tracks_runBranches branches (tracks_runBlock body) s
  | .loop condition body position => fun s => by
    rw [run, Statement.run_loop]
    exact (tracks_runBlock body).runLoop (Nat.le_of_eq (Nat.zero_add bound)) s
  | .termination position => fun s => by
    rw [run, Statement.run]
    exact .agrees _
  | .invalid complaint => fun s => by
    rw [run, Statement.run]
    exact .agrees _

theorem tracks_runBlock : (body : List Statement) →
    Tracks limit bound (runBlock limit bound body) (Statement.runBlock limit bound body)
  | [] => by
    rw [runBlock, Statement.runBlock_nil]
    exact tracks_plain
  | st :: body => by
    rw [runBlock, Statement.runBlock_cons]
    exact (tracks_run st).andThen (tracks_runBlock body)

theorem tracks_runBranches : (branches : List (Expr × List Statement)) →
    {f : Run} → {f' : State → Option Outcome} → Tracks limit bound f f' →
    Tracks limit bound (runBranches limit bound branches f)
      (Statement.runBranches limit bound branches f')
  | [], _, _, h => by
    rw [runBranches, Statement.runBranches_nil]
    exact h
  | (condition, body) :: branches, _, _, h => by
    rw [runBranches, Statement.runBranches_cons]
    exact (tracks_runBlock body).choose (tracks_runBranches branches h)

end

/-! ## A counter that is used up -/

/-- Without a limit, the counter of a loop that does nothing is used up in the end. -/
theorem runLoop_endless {count : UInt64} {s : State} (htest : condition.holds s.env = .ok true)
    (hbound : UInt64.size ≤ count.toNat + bound) :
    runLoop none position condition (plain Statement.skip) bound count s = .error .counter := by
  have hlt := count.toNat_lt_size
  induction bound generalizing count with
  | zero => omega
  | succ bound ih =>
    rw [runLoop, choose, holds_eq, htest]
    by_cases hcount : count.toNat + 1 = UInt64.size
    · change (increment count >>= _) = _
      rw [increment, if_pos hcount]
      rfl
    · obtain ⟨hincrement, hnext⟩ := increment_of_ne hcount
      change (increment count >>= _) = _
      rw [hincrement]
      exact ih (by omega) (count + 1).toNat_lt_size

end Machine

end DarjaLang
