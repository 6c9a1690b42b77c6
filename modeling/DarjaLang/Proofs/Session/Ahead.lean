import DarjaLang.Proofs.Session.Sentinel
import DarjaLang.Proofs.Session.Transcript

/-!
# Sessions that have counted more

A session counts its lines and its diagnostics, but it never looks at how many diagnostics there
are, and at the number of a line only where it ends there or takes the line for a text.

* `Session.ahead` is a session that has counted more.
* `execute_ahead`: a statement has the same effect on it, unless it ends the session.
* `feedLine_ahead`, `finish_ahead`: further diagnostics make no difference to any step, hence none
  to the course of a session (`transcript_ahead_iff`).
-/

set_option autoImplicit false

namespace DarjaLang

/-- The session when it has taken so many more lines and reported so many more diagnostics. -/
def Session.ahead (s : Session) (lines diagnostics : Nat) : Session :=
  { s with line := s.line + lines, diagnostics := s.diagnostics + diagnostics }

namespace Answer

/-- The same answer of a session that has counted more. -/
def ahead (a : Answer) (lines diagnostics : Nat) : Answer :=
  { a with session := a.session.ahead lines diagnostics }

variable {a : Answer} {m k : Nat}

theorem andThen_ahead {f : Session → Sink → Answer}
    (hf : ∀ s sink, f (s.ahead m k) sink = (f s sink).ahead m k) :
    (a.ahead m k).andThen f = (a.andThen f).ahead m k :=
  andThen_change (·.ahead m k) id (hf a.session a.sink)

end Answer

namespace Session

variable {s s' s'' : Session} {bound m k : Nat} {line : String} {ts : List Token} {sink : Sink}
  {items : List Item} {lines : List String} {written : List (List Item)}

/-! ## Statements -/

theorem report_ahead (trouble : Trouble) :
    (s.ahead m k).report trouble sink = (s.report trouble sink).ahead m k := by
  rw [report, report, Answer.ahead, ahead, ahead]
  dsimp only
  rw [Nat.add_right_comm]

/-- Where a session ends at a line, the number of the line matters. -/
theorem conclude_ahead {result : Except Trouble Flow} (h : m = 0 ∨ result ≠ .ok .terminate) :
    (s.ahead m k).conclude result sink = (s.conclude result sink).ahead m k := by
  match result with
  | .error trouble => exact report_ahead trouble
  | .ok .terminate =>
    obtain rfl := h.resolve_right fun hne => hne rfl
    rfl
  | .ok (.next none) => rfl
  | .ok (.next (some v)) =>
    have hechoes : (s.ahead m k).echoes v = s.echoes v := rfl
    rw [conclude, conclude, hechoes]
    split <;> rfl

/-- A statement has the same effect on a session that has counted more. -/
theorem execute_ahead
    (h : m = 0 ∨ ∀ position, Statement.ofTokens ts ≠ .termination position) :
    (s.ahead m k).execute bound ts sink =
      (s.execute bound ts sink).map (·.ahead m k) := by
  refine execute_change (·.ahead m k) rfl rfl (fun _ => rfl) fun o hrun env sink => ?_
  refine conclude_ahead (h.imp_right fun hne hresult => ?_)
  obtain ⟨result, state⟩ := o
  cases hresult
  obtain ⟨position, hread⟩ := Statement.exists_termination_of_run hrun
  exact hne position hread

/-! ## Lines -/

theorem feedStatement_ahead : (s.ahead 0 k).feedStatement bound line ts sink =
    (s.feedStatement bound line ts sink).map (·.ahead 0 k) := by
  have hline : (s.ahead 0 k).line = s.line := rfl
  rw [feedStatement, feedStatement, hline]
  by_cases hblank : ts.all Token.isTerminator = true
  · rw [if_pos hblank, if_pos hblank]
    rfl
  rw [if_neg hblank, if_neg hblank]
  cases PendingBlock.ofLine? line s.line ts with
  | none => exact execute_ahead (.inl rfl)
  | some block => rfl

theorem feedBlock_ahead {block : PendingBlock} : (s.ahead 0 k).feedBlock bound block line ts sink =
    (s.feedBlock bound block line ts sink).map (·.ahead 0 k) := by
  rw [feedBlock, feedBlock]
  by_cases hsentinel : Token.isSentinelLine ts = true
  · rw [if_pos hsentinel, if_pos hsentinel, Option.map_some]
    refine congrArg some (Eq.trans ?_ (Answer.andThen_ahead fun _ _ => rfl))
    exact congrArg (Answer.andThen · _) (report_ahead (s := s.collecting none) block.complaint)
  rw [if_neg hsentinel, if_neg hsentinel]
  dsimp only
  by_cases hbalance : 0 < (block.extend line (Token.balance ts)).balance
  · rw [if_pos hbalance, if_pos hbalance]
    rfl
  · rw [if_neg hbalance, if_neg hbalance]
    exact execute_ahead (s := s.collecting none) (.inl rfl)

/-- Further diagnostics make no difference to what a session does with a line. -/
theorem feedLine_ahead :
    (s.ahead 0 k).feedLine bound line sink = (s.feedLine bound line sink).map (·.ahead 0 k) := by
  by_cases hended : s.hasEnded = true
  · rw [feedLine_of_hasEnded hended, feedLine_of_hasEnded (s := s.ahead 0 k) hended]
    rfl
  rw [Bool.not_eq_true] at hended
  cases hpending : s.pending with
  | none =>
    rw [feedLine_of_none hended hpending, feedLine_of_none (s := s.ahead 0 k) hended hpending]
    exact feedStatement_ahead (s := s.counted)
  | some block =>
    rw [feedLine_of_some hended hpending, feedLine_of_some (s := s.ahead 0 k) hended hpending]
    exact feedBlock_ahead (s := s.counted)

theorem finish_ahead : (s.ahead 0 k).finish sink = (s.finish sink).ahead 0 k := by
  by_cases hended : s.hasEnded = true
  · rw [finish_of_hasEnded hended, finish_of_hasEnded (s := s.ahead 0 k) hended]
    rfl
  rw [Bool.not_eq_true] at hended
  cases hpending : s.pending with
  | none =>
    rw [finish_of_none hended hpending, finish_of_none (s := s.ahead 0 k) hended hpending]
    rfl
  | some block =>
    rw [finish_of_some hended hpending, finish_of_some (s := s.ahead 0 k) hended hpending]
    refine Eq.trans ?_ (Answer.andThen_ahead fun _ _ => rfl)
    exact congrArg (Answer.andThen · _) (report_ahead (s := s.collecting none) block.complaint)

/-! ## The course of a session -/

theorem finished_ahead : (s.ahead 0 k).finished = s.finished.ahead 0 k := by
  rw [finished, finish_ahead]
  rfl

theorem atEnd_ahead : (s.ahead 0 k).atEnd = s.atEnd := by
  rw [atEnd, finish_ahead]
  rfl

/-- Where two steps differ only by what has been counted, the same is written. -/
theorem writes_iff_of_ahead {s₁ : Session} {line₁ : String}
    (h : ∀ bound sink, s₁.feedLine bound line₁ sink =
      (s.feedLine bound line sink).map (·.ahead m k)) (items : List Item) (s'' : Session) :
    s₁.Writes line₁ items s'' ↔ ∃ s', s.Writes line items s' ∧ s'' = s'.ahead m k := by
  have hback : ∀ {items s'}, s.Writes line items s' → s₁.Writes line₁ items (s'.ahead m k) := by
    rintro items s' ⟨bound, flushes, hline⟩
    refine ⟨bound, flushes, fun sink hsink => ?_⟩
    rw [h, hline sink hsink]
    rfl
  constructor
  · rintro ⟨bound, flushes, hline⟩
    have hworking := hline .working Sink.works_working
    rw [h, Option.map_eq_some_iff] at hworking
    obtain ⟨a, ha, hahead⟩ := hworking
    obtain ⟨_, _, _, hwrites⟩ := writes_of_feedLine Sink.works_working ha
    obtain ⟨rfl, -⟩ := (hback hwrites).unique ⟨bound, flushes, hline⟩
    exact ⟨a.session, hwrites, (congrArg Answer.session hahead).symm⟩
  · rintro ⟨s', hwrites, rfl⟩
    exact hback hwrites

/-- A session that has counted more writes the same. -/
theorem writes_ahead_iff :
    (s.ahead 0 k).Writes line items s'' ↔ ∃ s', s.Writes line items s' ∧ s'' = s'.ahead 0 k :=
  writes_iff_of_ahead (fun _ _ => feedLine_ahead) items s''

/-- A session that has counted more takes the same course. -/
theorem transcript_ahead_iff : (s.ahead 0 k).Transcript lines written s'' ↔
    ∃ s', s.Transcript lines written s' ∧ s'' = s'.ahead 0 k := by
  constructor
  · intro h
    induction lines generalizing s written with
    | nil =>
      cases h
      exact ⟨s, .nil, rfl⟩
    | cons line lines ih =>
      cases h with
      | cons hline hrest =>
        obtain ⟨s₁, hfirst, rfl⟩ := writes_ahead_iff.1 hline
        obtain ⟨s', hlater, hs'⟩ := ih hrest
        exact ⟨s', .cons hfirst hlater, hs'⟩
  · rintro ⟨s', h, rfl⟩
    induction h with
    | nil => exact .nil
    | cons hline _ ih => exact .cons (writes_ahead_iff.2 ⟨_, hline, rfl⟩) ih

end Session

end DarjaLang
