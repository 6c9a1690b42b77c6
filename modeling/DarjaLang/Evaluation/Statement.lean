import DarjaLang.Evaluation.Expression

/-!
# Evaluating statements

A statement works on a state: the environment and the lines printed so far.  It ends with a flow,
which says whether the program goes on, or with trouble; either way the state that was reached is
kept, so nothing that was assigned or printed before a failure is undone.

A loop may run forever, so evaluation takes a bound on the number of passes through a single run of
a loop, and `none` says that a loop was still going on when the bound was reached.  That is not an
outcome of the program.  It is different from `limit`, which belongs to the language: a loop whose
condition still holds after that many passes is an error.

* `Statement.iterate` is one run of a loop, given its condition and its body as functions.
* `Statement.run` evaluates a statement, `Statement.runBlock` some statements in order.
-/

set_option autoImplicit false

namespace DarjaLang

/-- What statements work on. -/
structure State where
  env : Environment
  printed : Array String

/-- How a statement ends when nothing goes wrong. -/
inductive Flow
  /-- The program goes on; an expression leaves its value. -/
  | next (value : Option Value)
  /-- The program ends. -/
  | terminate

/-- How a statement ended, and the state it left. -/
structure Outcome where
  result : Except Trouble Flow
  state : State

/-- The limit that forbids a loop to go on after `count` passes, if there is one. -/
def reachedLimit? (limit : Option UInt64) (count : Nat) : Option UInt64 :=
  limit.filter fun n => n.toNat ≤ count

/-- A limit stops a loop exactly if it allows no more passes than there have been. -/
theorem reachedLimit?_eq_some_iff {limit : Option UInt64} {count : Nat} {n : UInt64} :
    reachedLimit? limit count = some n ↔ limit = some n ∧ n.toNat ≤ count := by
  simp [reachedLimit?, Option.filter_eq_some_iff]

/-- A limit lets a loop go on exactly if it allows more passes than there have been. -/
theorem reachedLimit?_eq_none_iff {limit : Option UInt64} {count : Nat} :
    reachedLimit? limit count = none ↔ ∀ n, limit = some n → count < n.toNat := by
  simp [reachedLimit?, Option.filter_eq_none_iff]

namespace Statement

/-- A run of a loop after `count` passes, for at most `bound` further tests of its condition. -/
def iterate (limit : Option UInt64) (position : Position) (test : State → Except Trouble Bool)
    (body : State → Option Outcome) : (bound count : Nat) → State → Option Outcome
  | 0, _, _ => none
  | bound + 1, count, s =>
    match test s with
    | .error e => some ⟨.error e, s⟩
    | .ok false => some ⟨.ok (.next none), s⟩
    | .ok true =>
      match reachedLimit? limit count with
      | some n => some ⟨.error ⟨.iterationLimit n, position⟩, s⟩
      | none =>
        match body s with
        | some ⟨.ok (.next _), s⟩ => iterate limit position test body bound (count + 1) s
        | stopped => stopped

mutual

/-- Evaluates a statement. -/
def run (limit : Option UInt64) (bound : Nat) : Statement → State → Option Outcome
  | assignment name value _, s =>
    match value.eval s.env with
    | .error e => some ⟨.error e, s⟩
    | .ok v => some ⟨.ok (.next none), ⟨s.env.assign name v, s.printed⟩⟩
  | expression value _, s =>
    match value.eval s.env with
    | .error e => some ⟨.error e, s⟩
    | .ok v => some ⟨.ok (.next (some v)), s⟩
  | print values _, s =>
    match Expr.evalAll s.env values with
    | .error e => some ⟨.error e, s⟩
    | .ok vs =>
      let line := " ".intercalate (vs.map Value.text)
      some ⟨.ok (.next none), ⟨s.env, s.printed.push line⟩⟩
  | conditional branches otherwise _, s =>
    runBranches limit bound branches (runOtherwise limit bound otherwise) s
  | loop condition body position, s =>
    iterate limit position (fun s => condition.holds s.env) (runBlock limit bound body) bound 0 s
  | termination _, s => some ⟨.ok .terminate, s⟩
  | invalid complaint, s => some ⟨.error (complaint.map .unparsed), s⟩

/-- Evaluates statements in order, up to the first one that fails or ends the program. -/
def runBlock (limit : Option UInt64) (bound : Nat) : List Statement → State → Option Outcome
  | [], s => some ⟨.ok (.next none), s⟩
  | st :: rest, s =>
    match run limit bound st s with
    | some ⟨.ok (.next _), s⟩ => runBlock limit bound rest s
    | stopped => stopped

/-- Evaluates the first branch whose condition holds, or else what is done `otherwise`. -/
def runBranches (limit : Option UInt64) (bound : Nat) :
    List (Expr × List Statement) → (otherwise : State → Option Outcome) → State → Option Outcome
  | [], otherwise, s => otherwise s
  | (condition, body) :: rest, otherwise, s =>
    match condition.holds s.env with
    | .error e => some ⟨.error e, s⟩
    | .ok true => runBlock limit bound body s
    | .ok false => runBranches limit bound rest otherwise s

/-- Evaluates the last block of a conditional, if there is one. -/
def runOtherwise (limit : Option UInt64) (bound : Nat) :
    Option (List Statement) → State → Option Outcome
  | none, s => some ⟨.ok (.next none), s⟩
  | some body, s => runBlock limit bound body s

end

end Statement

end DarjaLang
