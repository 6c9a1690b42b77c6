import DarjaLang.Proofs.Evaluation.Cause
import DarjaLang.Proofs.Evaluation.Steps
import DarjaLang.Proofs.Grammar.Statement.Parts

/-!
# How the evaluation of a line ends

Actions, and what is built of them, never end the program, and they never fail because a line could
not be read (`isOrdinary_run`).  So only a line that is the sentinel ends the program
(`exists_termination_of_run`), and only one that could not be read is complained about as such
(`eq_invalid_of_run`).
-/

set_option autoImplicit false

namespace DarjaLang

/-- The evaluation has not ended the program, nor come to a line that could not be read. -/
structure Outcome.IsOrdinary (o : Outcome) : Prop where
  result_ne : o.result ≠ .ok .terminate
  cause_ne : ∀ e error, o.result = .error e → e.cause ≠ .unparsed error

namespace Statement

variable {limit : Option UInt64} {bound count : Nat} {position : Position} {condition : Expr}
  {f g : State → Option Outcome} {st : Statement} {s s' : State} {o : Outcome} {e : Trouble}

/-- However the evaluation ends, it is ordinary. -/
def Ordinary (f : State → Option Outcome) : Prop := ∀ s o, f s = some o → o.IsOrdinary

theorem isOrdinary_next (v : Option Value) (s : State) :
    Outcome.IsOrdinary ⟨.ok (.next v), s⟩ := ⟨nofun, fun _ _ h => by cases h⟩

theorem isOrdinary_error (s : State) (he : ∀ error, e.cause ≠ .unparsed error) :
    Outcome.IsOrdinary ⟨.error e, s⟩ := by
  refine ⟨nofun, fun e' error h => ?_⟩
  cases h
  exact he error

theorem isOrdinary_of_values (s : State) (he : e.OfValues) : Outcome.IsOrdinary ⟨.error e, s⟩ := by
  refine isOrdinary_error s fun error h => ?_
  rw [Trouble.OfValues, h] at he
  exact he

theorem ordinary_skip : Ordinary skip := by
  intro s o h
  cases h
  exact isOrdinary_next none s

theorem ordinary_stopAt (n : UInt64) (position : Position) : Ordinary (stopAt n position) := by
  intro s o h
  cases h
  exact isOrdinary_error s nofun

theorem Ordinary.andThen (hf : Ordinary f) (hg : Ordinary g) : Ordinary (andThen f g) := by
  intro s o h
  rcases andThen_eq_some h with ⟨v, s', -, h⟩ | ⟨h, -⟩
  · exact hg s' o h
  · exact hf s o h

theorem Ordinary.choose (condition : Expr) (hf : Ordinary f) (hg : Ordinary g) :
    Ordinary (choose condition f g) := by
  intro s o h
  rcases choose_eq_some h with ⟨e, hfails, rfl⟩ | ⟨-, h⟩ | ⟨-, h⟩
  · exact isOrdinary_of_values s (Expr.blames_of_holds s.env condition e hfails).ofValues
  · exact hf s o h
  · exact hg s o h

theorem Ordinary.runLoop (hf : Ordinary f) :
    Ordinary (runLoop limit position condition f bound count) := by
  induction bound generalizing count with
  | zero => exact fun s o h => by cases h
  | succ bound ih =>
    rw [runLoop_succ]
    refine .choose condition ?_ ordinary_skip
    split
    · exact ordinary_stopAt _ position
    · exact hf.andThen ih

theorem ordinary_of_isAction (h : st.IsAction) : Ordinary (run limit bound st) := by
  intro s o hrun
  rcases run_of_isAction h s with ⟨e, ⟨x, -, hblames⟩, hfails⟩ | ⟨v, s', hnext, -⟩
  · cases hrun.symm.trans hfails
    exact isOrdinary_of_values s hblames.ofValues
  · cases hrun.symm.trans hnext
    exact isOrdinary_next v s'

/-- **What is built of actions neither ends the program nor fails because of a line.** -/
theorem isOrdinary_run (h : BuiltOf IsAction st) (hrun : run limit bound st s = some o) :
    o.IsOrdinary := by
  have hordinary : Congruent limit limit bound bound fun f _ => Ordinary f := {
    skip := ordinary_skip
    andThen := .andThen
    choose := fun condition _ _ _ _ => .choose condition
    loop := fun _ _ _ _ hf => hf.runLoop }
  exact h.related hordinary (fun _ => ordinary_of_isAction) s o hrun

/-- Only a line that is the sentinel ends the program. -/
theorem exists_termination_of_run {ts : List Token}
    (hrun : (ofTokens ts).run limit bound s = some ⟨.ok .terminate, s'⟩) :
    ∃ position, ofTokens ts = .termination position := by
  rcases Grammar.ofTokens_cases ts with h | ⟨complaint, h⟩ | h
  · exact h
  · rw [h, run] at hrun
    cases hrun
  · exact absurd rfl (isOrdinary_run h hrun).result_ne

/-- Only a line that could not be read fails because it could not be read. -/
theorem eq_invalid_of_run {ts : List Token} {error : ParseError}
    (hrun : (ofTokens ts).run limit bound s = some ⟨.error ⟨.unparsed error, position⟩, s'⟩) :
    ofTokens ts = .invalid ⟨error, position⟩ := by
  rcases Grammar.ofTokens_cases ts with ⟨position, h⟩ | ⟨complaint, h⟩ | h
  · rw [h, run] at hrun
    cases hrun
  · rw [h, run] at hrun
    cases hrun
    exact h
  · exact absurd rfl ((isOrdinary_run h hrun).cause_ne _ _ rfl)

end Statement

end DarjaLang
