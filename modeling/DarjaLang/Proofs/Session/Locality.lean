import DarjaLang.Proofs.Session.Ahead

/-!
# Errors stay in their line

A line whose statement contains no others either does what it says or nothing at all: operands and
arguments are evaluated before anything is bound or printed, and a line that cannot be read is not
evaluated.  So a line that is reported could as well have been empty.

* `Statement.eq_of_run_error`: a statement that contains no others leaves the state alone when it
  fails.
* `Writes.of_diagnostic`: all that becomes of such a line is one diagnostic.
* `error_is_local` is the result: with an empty line in its place, the session takes the same course
  before and after it.
-/

set_option autoImplicit false

namespace DarjaLang

/-- A statement that contains no others leaves the state alone when it fails. -/
theorem Statement.eq_of_run_error {limit : Option UInt64} {bound : Nat} {st : Statement}
    {s s' : State} {e : Trouble} (h : st.IsSimple)
    (hrun : st.run limit bound s = some ⟨.error e, s'⟩) : s' = s := by
  rcases h.cases with haction | ⟨position, rfl⟩ | ⟨complaint, rfl⟩
  · rcases run_of_isAction haction s with ⟨e', -, hfails⟩ | ⟨v, s₁, hnext, -⟩
    · cases hrun.symm.trans hfails
      rfl
    · cases hrun.symm.trans hnext
  · rw [run] at hrun
    cases hrun
  · rw [run] at hrun
    cases hrun
    rfl

namespace Session

variable {config : Configuration} {s s₁ s' : Session} {line bad : String} {ts : List Token}
  {items : List Item} {trouble : Trouble} {before after : List String}
  {outs written : List (List Item)}

/-! ## The line -/

/-- A statement that fails, and contains no others, has its diagnostic for its only effect. -/
theorem execute_of_diagnostic {bound flushes : Nat} (hsimple : (Statement.ofTokens ts).IsSimple)
    (hrun : s.execute bound ts .working = some ⟨s', Sink.working.taking items flushes, none⟩)
    (htrouble : .diagnostic trouble ∈ items) :
    items = [.diagnostic trouble] ∧ s' = s.ahead 0 1 := by
  obtain ⟨⟨result, state⟩, heval, -⟩ := execute_eq_some hrun
  have hresult : result = .error trouble := by
    obtain ⟨s₁, last, htells, hlast⟩ := exists_tells_conclude { s with env := state.env } result
    have hwritten := execute_of_tells heval htells Sink.works_working
    rw [hrun] at hwritten
    obtain ⟨-, hsink, -⟩ := Answer.mk.inj (Option.some.inj hwritten)
    rw [Sink.eq_of_taking_eq hsink] at htrouble
    refine hlast trouble ((List.mem_append.1 htrouble).resolve_left fun hmem => ?_)
    obtain ⟨_, -, hprinted⟩ := List.mem_map.1 hmem
    cases hprinted
  subst hresult
  obtain rfl := Statement.eq_of_run_error hsimple heval
  have hwritten := execute_of_tells heval (tells_report s trouble) Sink.works_working
  rw [hrun] at hwritten
  obtain ⟨hsession, hsink, -⟩ := Answer.mk.inj (Option.some.inj hwritten)
  exact ⟨Sink.eq_of_taking_eq hsink, hsession⟩

/-- A line is only reported if it is executed. -/
theorem Writes.exists_execute (h : s.Writes bad items s₁) (hpending : s.pending = none)
    (htrouble : .diagnostic trouble ∈ items) :
    ∃ bound flushes, s.counted.execute bound (Token.scan bad (s.line + 1)) .working =
      some ⟨s₁, Sink.working.taking items flushes, none⟩ := by
  obtain ⟨bound, flushes, hfed⟩ := h
  have hfed := hfed .working Sink.works_working
  refine ⟨bound, flushes, ?_⟩
  have hsilent : Sink.working.taking items flushes ≠ .working := by
    intro hsink
    rw [Sink.eq_of_taking_eq (hsink.trans Sink.taking_nil.symm)] at htrouble
    cases htrouble
  generalize ha : (⟨s₁, Sink.working.taking items flushes, none⟩ : Answer) = a at hfed
  have hsink : a.sink ≠ .working := ha ▸ hsilent
  cases feedLine_eq_some_iff.1 hfed with
  | statement _ _ _ _ hrun => exact ha ▸ hrun
  | ended => exact absurd rfl hsink
  | blank => exact absurd rfl hsink
  | opens => exact absurd rfl hsink
  | givesUp _ hsome => rw [hpending] at hsome; cases hsome
  | goesOn _ hsome => rw [hpending] at hsome; cases hsome
  | closes _ hsome => rw [hpending] at hsome; cases hsome

/-- All that becomes of a line with such a statement is one diagnostic. -/
theorem Writes.of_diagnostic (h : s.Writes bad items s₁) (hpending : s.pending = none)
    (hsimple : (Statement.ofTokens (Token.scan bad (s.line + 1))).IsSimple)
    (htrouble : .diagnostic trouble ∈ items) :
    items = [.diagnostic trouble] ∧ s₁ = s.counted.ahead 0 1 := by
  obtain ⟨bound, flushes, hrun⟩ := h.exists_execute hpending htrouble
  exact execute_of_diagnostic hsimple hrun htrouble

/-- Nothing becomes of an empty line. -/
theorem writes_empty (hrunning : s.hasEnded = false) (hpending : s.pending = none) :
    s.Writes "" [] s.counted := by
  refine ⟨0, 0, fun sink _ => ?_⟩
  rw [feedLine_eq_some_iff.2 (.blank hrunning hpending rfl), Sink.taking_nil]

/-! ## The session -/

/-- From such a line on, a session takes the course that it takes from an empty line on. -/
theorem transcript_iff_of_diagnostic (hrunning : s.hasEnded = false) (hpending : s.pending = none)
    (hbad : s.Writes bad items (s.counted.ahead 0 1)) :
    s.Transcript (bad :: after) written s' ↔ ∃ rest s'', written = items :: rest ∧
      s' = s''.ahead 0 1 ∧ s.Transcript ("" :: after) ([] :: rest) s'' := by
  have hempty := writes_empty hrunning hpending
  constructor
  · intro h
    cases h with
    | cons hline hrest =>
      obtain ⟨rfl, rfl⟩ := hbad.unique hline
      obtain ⟨s'', hlater, rfl⟩ := transcript_ahead_iff.1 hrest
      exact ⟨_, s'', rfl, rfl, .cons hempty hlater⟩
  · rintro ⟨rest, s'', rfl, rfl, h⟩
    cases h with
    | cons hline hrest =>
      obtain ⟨-, rfl⟩ := hempty.unique hline
      exact .cons hbad (transcript_ahead_iff.2 ⟨s'', hrest, rfl⟩)

/-- Nor do the lines before it matter. -/
theorem Transcript.iff_of_diagnostic {s₀ : Session} (hbefore : s₀.Transcript before outs s)
    (hrunning : s.hasEnded = false) (hpending : s.pending = none)
    (hbad : s.Writes bad items (s.counted.ahead 0 1)) :
    s₀.Transcript (before ++ bad :: after) written s' ↔
      ∃ rest s'', written = outs ++ items :: rest ∧ s' = s''.ahead 0 1 ∧
        s₀.Transcript (before ++ "" :: after) (outs ++ [] :: rest) s'' := by
  rw [hbefore.append_iff]
  constructor
  · rintro ⟨last, rfl, hlast⟩
    obtain ⟨rest, s'', rfl, hs', h⟩ :=
      (transcript_iff_of_diagnostic hrunning hpending hbad).1 hlast
    exact ⟨rest, s'', rfl, hs', hbefore.append h⟩
  · rintro ⟨rest, s'', rfl, hs', h⟩
    obtain ⟨last, hlast, h⟩ := hbefore.append_iff.1 h
    cases List.append_cancel_left hlast
    exact ⟨_, rfl, (transcript_iff_of_diagnostic hrunning hpending hbad).2 ⟨rest, s'', rfl, hs', h⟩⟩

/-- **Errors stay in their line.**  Take a line, fed to a session that collects no block, whose
statement contains no others and for which a diagnostic is written.  Then nothing else is written
for the line, and the session has only counted it and its diagnostic.  The lines before and behind
it take the course that they take with an empty line in its place, up to the number of diagnostics;
and so do inputs as a whole, with their end. -/
theorem error_is_local (hbefore : (start config).Transcript before outs s)
    (hrunning : s.hasEnded = false) (hpending : s.pending = none)
    (hbad : s.Writes bad items s₁) (htrouble : .diagnostic trouble ∈ items)
    (hsimple : (Statement.ofTokens (Token.scan bad (s.line + 1))).IsSimple) :
    items = [.diagnostic trouble] ∧ s₁ = s.counted.ahead 0 1 ∧
    (∀ after written s', (start config).Transcript (before ++ bad :: after) written s' ↔
      ∃ rest s'', written = outs ++ [.diagnostic trouble] :: rest ∧ s' = s''.ahead 0 1 ∧
        (start config).Transcript (before ++ "" :: after) (outs ++ [] :: rest) s'') ∧
    ∀ (after : List String) (bound bound' looked looked' : Nat) (sink sink' : Sink)
      (a a' : Answer), sink.Works → sink'.Works →
      (start config).feedAll bound ((before ++ bad :: after).map .ok) sink = some (a, looked) →
      (start config).feedAll bound' ((before ++ "" :: after).map .ok) sink' = some (a', looked') →
      a.session = a'.session.ahead 0 1 ∧ ∃ rest : List Item,
        a.sink.accepted.toList =
          sink.accepted.toList ++ outs.flatten ++ .diagnostic trouble :: rest ∧
        a'.sink.accepted.toList = sink'.accepted.toList ++ outs.flatten ++ rest := by
  obtain ⟨rfl, rfl⟩ := hbad.of_diagnostic hpending hsimple htrouble
  refine ⟨rfl, rfl, fun after written s' => hbefore.iff_of_diagnostic hrunning hpending hbad, ?_⟩
  intro after bound bound' looked looked' sink sink' a a' hsink hsink' hrun hrun'
  obtain ⟨written, s', flushes, hcourse, rfl⟩ := transcript_of_feedAll hsink hrun
  obtain ⟨written', s'', flushes', hcourse', rfl⟩ := transcript_of_feedAll hsink' hrun'
  obtain ⟨rest, _, rfl, rfl, hempty⟩ :=
    (hbefore.iff_of_diagnostic hrunning hpending hbad).1 hcourse
  obtain ⟨rfl, rfl⟩ := hempty.unique hcourse'
  refine ⟨finished_ahead, rest.flatten ++ s''.atEnd, ?_, ?_⟩
  · simp [atEnd_ahead]
  · simp

set_option maxRecDepth 1000 in
/-- An assignment fails, and the variable keeps its value. -/
theorem error_is_local_assignment :
    ∃ s s₁, (start ⟨true, none⟩).Transcript ["x = sah"] [[]] s ∧ s.hasEnded = false ∧
      s.pending = none ∧ s.Writes "x = y" [.diagnostic ⟨.unboundVariable "y", ⟨2, 5⟩⟩] s₁ ∧
      (Statement.ofTokens (Token.scan "x = y" (s.line + 1))).IsSimple ∧
      (start ⟨true, none⟩).Transcript ["x = sah", "x = y", "x"]
        [[], [.diagnostic ⟨.unboundVariable "y", ⟨2, 5⟩⟩], [.echoed (.boolean true)]]
        ⟨⟨true, none⟩, Environment.empty.assign "x" (.boolean true), 3, 1, none, none⟩ := by
  have hassigns : (start ⟨true, none⟩).feedLine 0 "x = sah" .working =
      some ⟨⟨⟨true, none⟩, Environment.empty.assign "x" (.boolean true), 1, 0, none, none⟩,
        ⟨Sink.working.writeFate, Sink.working.flushFate, 0, 1, #[]⟩, none⟩ := by cbv
  have hfails : feedLine ⟨⟨true, none⟩, Environment.empty.assign "x" (.boolean true), 1, 0, none,
      none⟩ 0 "x = y" .working =
        some ⟨⟨⟨true, none⟩, Environment.empty.assign "x" (.boolean true), 2, 1, none, none⟩,
          ⟨Sink.working.writeFate, Sink.working.flushFate, 1, 1,
            #[.diagnostic ⟨.unboundVariable "y", ⟨2, 5⟩⟩]⟩, none⟩ := by cbv
  have hechoes : feedLine ⟨⟨true, none⟩, Environment.empty.assign "x" (.boolean true), 2, 0, none,
      none⟩ 0 "x" .working =
        some ⟨⟨⟨true, none⟩, Environment.empty.assign "x" (.boolean true), 3, 0, none, none⟩,
          ⟨Sink.working.writeFate, Sink.working.flushFate, 1, 1, #[.echoed (.boolean true)]⟩,
          none⟩ := by cbv
  have hread : Statement.ofTokens (Token.scan "x = y" 2) =
      .assignment "x" (.var "y" ⟨2, 5⟩) ⟨2, 1⟩ := by cbv
  have hsimple : (Statement.ofTokens (Token.scan "x = y" 2)).IsSimple := by
    rw [hread]
    trivial
  have hbefore : (start ⟨true, none⟩).Transcript ["x = sah"] [[]] _ :=
    .single (writes_of_working hassigns)
  have hbad := writes_of_working hfails
  obtain ⟨-, -, hcourses, -⟩ :=
    error_is_local hbefore rfl rfl hbad List.mem_cons_self hsimple
  exact ⟨_, _, hbefore, rfl, rfl, hbad, hsimple, (hcourses ["x"] _ _).2 ⟨_, _, rfl, rfl,
    hbefore.append (.cons (writes_empty rfl rfl) (.single (writes_of_working hechoes)))⟩⟩

end Session

end DarjaLang
