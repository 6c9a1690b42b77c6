import DarjaLang.Proofs.Session.UnclosedBlock

/-!
# What a failing sink leaves of a block that is given up

At a sentinel line and at the end of the input, a session first drops the block that it is
collecting, then it counts and writes the report, and only then it ends.  If the report is refused,
the session goes on without the block.

* `Session.Resolves` is what one would expect of a session behind such a step: it has ended, or it
  still has its block.
* `resolves_report_iff`: a session does so exactly if its report is accepted.
* `given_up_iff` is the result.  `given_up_with_refused_report` is a program whose sentinel is lost,
  so that a line behind it is executed.
-/

set_option autoImplicit false

namespace DarjaLang

namespace Session

variable {config : Configuration} {lines : List String} {s : Session} {block : PendingBlock}
  {sink : Sink}

/-- The session has ended for the given reason, or it goes on with the block. -/
def Resolves (s : Session) (ending : Ending) (block : PendingBlock) : Prop :=
  s.ending = some ending ∨ s.hasEnded = false ∧ s.pending = some block

/-- The session without its block, whose report has been counted. -/
def dropping (s : Session) : Session :=
  { s with pending := none, diagnostics := s.diagnostics + 1 }

/-- To report a block and then to end leaves a session half-way if the report is refused. -/
theorem resolves_report_iff {a : Answer} (hrunning : s.hasEnded = false)
    (ending : Session → Ending)
    (ha : a = ((s.collecting none).report block.complaint sink).andThen fun s sink =>
      ⟨s.endedBy (ending s), sink, none⟩) :
    (a.session.Resolves (ending s.dropping) block ↔ sink.writeFate sink.writes = none) ∧
      ∀ e, sink.writeFate sink.writes = some e →
        a.failure = some e ∧ a.session = s.dropping := by
  have hfailure : ((s.collecting none).report block.complaint sink).failure =
      sink.writeFate sink.writes := rfl
  rw [Answer.andThen, hfailure] at ha
  cases hfate : sink.writeFate sink.writes with
  | none =>
    rw [hfate] at ha
    exact ⟨⟨fun _ => rfl, fun _ => .inl (by rw [ha]; rfl)⟩, fun e he => by cases he⟩
  | some e =>
    rw [hfate] at ha
    subst ha
    refine ⟨⟨fun hresolves => ?_, fun he => by cases he⟩, fun e' he => ⟨?_, rfl⟩⟩
    rcases hresolves with hending | ⟨-, hpending⟩
    · have hended := congrArg Option.isSome hending
      exact absurd hended (ne_true_of_eq_false hrunning)
    · cases hpending
    · exact hfailure.trans (hfate.trans he)

/-- **A session that gives a block up ends, or keeps the block, exactly if its sink accepts the
report.**  If the report is refused, the session goes on without the block, and takes the lines that
come next for statements of their own.  Refused flushes change nothing. -/
theorem given_up_iff (h : Called config lines s) (hpending : s.pending = some block) :
    (∀ (bound : Nat) (line : String) (sink : Sink),
      Token.isSentinelLine (Token.scan line (s.line + 1)) = true →
      ∃ a, s.feedLine bound line sink = some a ∧
        (a.session.Resolves (.sentinel (s.line + 1)) block ↔
          sink.writeFate sink.writes = none) ∧
        ∀ e, sink.writeFate sink.writes = some e →
          a.failure = some e ∧ a.session = s.counted.dropping) ∧
    ∀ sink : Sink,
      ((s.finish sink).session.Resolves .endOfInput block ↔ sink.writeFate sink.writes = none) ∧
      ∀ e, sink.writeFate sink.writes = some e →
        (s.finish sink).failure = some e ∧ (s.finish sink).session = s.dropping := by
  have hrunning := (h.reached.knows.pending block hpending).1
  refine ⟨fun bound line sink hline => ?_, fun sink => ?_⟩
  · have hcounted : s.counted.hasEnded = false := hrunning
    exact ⟨_, feedLine_eq_some_iff.2 (.givesUp hrunning hpending hline),
      resolves_report_iff hcounted (fun s => .sentinel s.line) rfl⟩
  · exact resolves_report_iff hrunning (fun _ => .endOfInput) (finish_of_some hrunning hpending)

/-- A sink that is closed: it refuses every report. -/
def closedSink : Sink := .answering (fun _ => some ⟨.brokenPipe, "closed"⟩) fun _ => none

/-- A sink that is stuck accepts the report, and one that is closed does not. -/
theorem given_up_iff_first_branch :
    ∃ s block, Called ⟨true, none⟩ ["ila sah \x7b"] s ∧ s.pending = some block ∧
      (s.finish (.answering (fun _ => none) fun _ => some ⟨.timedOut, "stuck"⟩)).session.Resolves
        .endOfInput block ∧
      ¬ (s.finish closedSink).session.Resolves .endOfInput block := by
  have hcalled : Called ⟨true, none⟩ ["ila sah \x7b"] _ :=
    Called.start.feedLine feedLine_first_branch
  obtain ⟨-, hfinish⟩ := given_up_iff hcalled rfl
  refine ⟨_, _, hcalled, rfl, (hfinish _).1.2 rfl, fun hresolves => ?_⟩
  cases (hfinish closedSink).1.1 hresolves

/-- The report of the first branch is refused.  The session goes on, and executes an assignment
behind the sentinel. -/
theorem given_up_with_refused_report :
    ∃ s block a, Called ⟨true, none⟩ ["ila sah \x7b"] s ∧ s.pending = some block ∧
      Token.isSentinelLine (Token.scan "khlas" (s.line + 1)) = true ∧
      s.feedLine 0 "khlas" closedSink = some a ∧
      ¬ a.session.Resolves (.sentinel 2) block ∧
      a.session.hasEnded = false ∧ a.session.pending = none ∧
      ∃ a', a.session.feedLine 0 "x = sah" .working = some a' ∧
        a'.session.env = Environment.empty.assign "x" (.boolean true) := by
  have hrefused : feedLine ⟨⟨true, none⟩, .empty, 1, 0,
      some ⟨"ila sah \x7b", 1, ⟨1, 9⟩, 1⟩, none⟩ 0 "khlas" closedSink =
        some ⟨⟨⟨true, none⟩, .empty, 2, 1, none, none⟩, ⟨closedSink.writeFate,
          closedSink.flushFate, 1, 0, #[]⟩, some ⟨.brokenPipe, "closed"⟩⟩ := rfl
  have hassigned : feedLine ⟨⟨true, none⟩, .empty, 2, 1, none, none⟩ 0 "x = sah" .working =
      some ⟨⟨⟨true, none⟩, Environment.empty.assign "x" (.boolean true), 3, 1, none, none⟩,
        ⟨Sink.working.writeFate, Sink.working.flushFate, 0, 1, #[]⟩, none⟩ := by cbv
  refine ⟨_, _, _, Called.start.feedLine feedLine_first_branch, rfl, rfl, hrefused, ?_, rfl, rfl,
    _, hassigned, rfl⟩
  rintro (hending | ⟨-, hpending⟩)
  · cases hending
  · cases hpending

end Session

end DarjaLang
