import DarjaLang.CommandLine.Program
import DarjaLang.Proofs.Bytes
import DarjaLang.Proofs.Session.Sentinel
import DarjaLang.Proofs.Session.Transcript
import DarjaLang.Session.Report

/-!
# The program and the library

The program does with bytes what `Report.ofText` does with their text, as far as they are text.  It
reads no further than to the end of the session, so bytes behind that do not matter.  If it comes
upon a line that is no text before that, it stops there: what the lines so far have written stands,
but the session is not told that there are no more lines.

* `Session.feedAll_append`: a session that is given lines and more input either does not get over
  the lines, or ends within them, or goes on with what is behind.
* `Options.Reads`: the program is to be read from certain bytes.
* `runInput_of_text` and `runInput_of_breaks` are the two cases, and `execute_eq_report` is the
  result for all bytes.
-/

set_option autoImplicit false

namespace DarjaLang

/-- What a new sink has accepted is its text. -/
theorem Sink.text_working_taking (items : List Item) (flushes : Nat) :
    (working.taking items flushes).text = outputText items.toArray := by
  have haccepted : (working.taking items flushes).accepted = items.toArray :=
    Array.toList_inj.1 (toList_accepted_taking items flushes)
  rw [text, haccepted]

namespace Session

variable {s : Session} {bound : Nat} {line : String} {sink : Sink} {a : Answer}

/-- A line that ends a session is the one that the session ends at. -/
theorem ending_of_feedLine (hrunning : s.hasEnded = false)
    (ha : s.feedLine bound line sink = some a) (hended : a.session.hasEnded = true) :
    a.session.ending = some (.sentinel (s.line + 1)) := by
  have hexecute : ∀ (s' : Session) {ts : List Token}, s'.hasEnded = false →
      s'.execute bound ts sink = some a → a.session.ending = some (.sentinel s'.line) := by
    intro s' ts hrunning hrun
    obtain ⟨position, hread⟩ := exists_termination_of_execute hrunning hrun hended
    obtain ⟨a', ha', hending⟩ := execute_of_termination s' bound sink hread
    cases Option.some.inj (hrun.symm.trans ha')
    exact hending
  cases feedLine_eq_some_iff.1 ha with
  | ended h => exact absurd h (ne_true_of_eq_false hrunning)
  | blank h => exact absurd hended (ne_true_of_eq_false h)
  | opens h => exact absurd hended (ne_true_of_eq_false h)
  | goesOn h => exact absurd hended (ne_true_of_eq_false h)
  | statement _ _ _ _ hrun => exact hexecute s.counted hrunning hrun
  | closes _ _ _ _ hrun => exact hexecute (s.counted.collecting none) hrunning hrun
  | givesUp =>
    rw [Answer.andThen] at hended ⊢
    split at hended
    · exact absurd hended (ne_true_of_eq_false hrunning)
    · rfl

/-- A session that has not ended before ends with the input. -/
theorem ending_finished (hrunning : s.hasEnded = false) :
    s.finished.ending = some .endOfInput := by
  rw [finished]
  cases hpending : s.pending with
  | none => rw [finish_of_none hrunning hpending]; rfl
  | some block => rw [finish_of_some hrunning hpending]; rfl

/-- A session that is given lines, and more input behind them, does not get over the lines, or ends
within them and does not look at what is behind, or goes on with it. -/
theorem feedAll_append (hsink : sink.Works) (hrunning : s.hasEnded = false) (bound : Nat)
    (lines : List String) :
    (∀ behind, s.feedAll bound (lines.map .ok ++ behind) sink = none) ∨
    (∃ s' items flushes looked number, s'.ending = some (.sentinel number) ∧
      ∀ behind, s.feedAll bound (lines.map .ok ++ behind) sink =
        some (⟨s', sink.taking items flushes, none⟩, looked)) ∨
    ∃ written s' flushes, s.Transcript lines written s' ∧ s'.hasEnded = false ∧
      ∀ behind, s.feedAll bound (lines.map .ok ++ behind) sink =
        (s'.feedAll bound behind (sink.taking written.flatten flushes)).map
          fun (a, looked) => (a, looked + lines.length) := by
  induction lines generalizing s sink with
  | nil =>
    refine .inr (.inr ⟨[], s, 0, .nil, hrunning, fun behind => ?_⟩)
    rw [List.flatten_nil, Sink.taking_nil]
    exact Option.map_id_apply.symm
  | cons line lines ih =>
    cases hfed : s.feedLine bound line sink with
    | none =>
      refine .inl fun behind => ?_
      rw [List.map_cons, List.cons_append, feedAll, hfed]
    | some fed =>
      obtain ⟨items, flushes, hanswer, hline⟩ := writes_of_feedLine hsink hfed
      obtain ⟨s₁, sink', failure⟩ := fed
      cases hanswer
      have hstep : ∀ behind, s.feedAll bound ((line :: lines).map .ok ++ behind) sink =
          if s₁.hasEnded then some (⟨s₁, sink.taking items flushes, none⟩, 1)
          else (s₁.feedAll bound (lines.map .ok ++ behind) (sink.taking items flushes)).map
            fun (a, looked) => (a, looked + 1) := by
        intro behind
        rw [List.map_cons, List.cons_append, feedAll, hfed]
        rfl
      by_cases hended : s₁.hasEnded = true
      · refine .inr (.inl ⟨s₁, items, flushes, 1, _, ending_of_feedLine hrunning hfed hended,
          fun behind => ?_⟩)
        rw [hstep, if_pos hended]
      simp only [hstep, if_neg hended]
      rw [Bool.not_eq_true] at hended
      rcases ih (hsink.taking items flushes) hended with hnone |
        ⟨s', more, flushes', looked, number, hending, hall⟩ |
        ⟨written, s', flushes', hcourse, hrunning', hall⟩
      · exact .inl fun behind => by rw [hnone]; rfl
      · refine .inr (.inl ⟨s', items ++ more, flushes + flushes', looked + 1, number, hending,
          fun behind => ?_⟩)
        rw [hall, Sink.taking_taking]
        rfl
      · refine .inr (.inr ⟨items :: written, s', flushes + flushes', .cons hline hcourse, hrunning',
          fun behind => ?_⟩)
        rw [hall, Sink.taking_taking, Option.map_map, List.flatten_cons]
        rfl

end Session

namespace CommandLine

variable {bound : Nat} {o : Options} {context : Option String} {text front : String}
  {behind bytes : ByteArray} {stdin : Input} {openFile : String → Except StreamError Input}

/-- The exit of a run that gets to its end. -/
def Options.complete (o : Options) (output : String) : Exit :=
  ⟨0, (if o.quiet then "" else banner) ++ output ++ (if o.quiet then "" else farewell), ""⟩

/-- The exit of a run that comes upon a line that is no text. -/
def Options.brokenOff (o : Options) (context : Option String) (output : String) : Exit :=
  ⟨1, (if o.quiet then "" else banner) ++ output, failureText context Lines.notText⟩

/-- The program is to be read from the bytes, on standard input or in a file; `context` says what
has failed if that cannot be done. -/
inductive Options.Reads (o : Options) (stdin : Input)
    (openFile : String → Except StreamError Input) (bytes : ByteArray) : Option String → Prop
  | stdin (hfile : o.file = none) (hstdin : stdin = Lines.ofBytes bytes) :
      Reads o stdin openFile bytes none
  | file {path : String} (hfile : o.file = some path)
      (hopen : openFile path = .ok (Lines.ofBytes bytes)) :
      Reads o stdin openFile bytes (some ("failed while running '" ++ path ++ "'"))

theorem Options.Reads.execute_eq (h : o.Reads stdin openFile bytes context) (bound : Nat) :
    execute bound o stdin openFile = runInput bound o context (Lines.ofBytes bytes) := by
  cases h with
  | stdin hfile hstdin => rw [execute, hfile, hstdin]
  | file hfile hopen =>
    rw [execute, hfile]
    dsimp only
    rw [hopen]

/-- A text is run to the end. -/
theorem runInput_of_text (bound : Nat) (o : Options) (context : Option String) (text : String) :
    runInput bound o context ((Lines.ofText text).map .ok) =
      (Report.ofText bound o.configuration text).map fun r => o.complete r.text := by
  rw [runInput, Report.ofText]
  cases hall : (Session.start o.configuration).feedAll bound ((Lines.ofText text).map .ok)
    .working with
  | none => rfl
  | some fed =>
    obtain ⟨a, looked⟩ := fed
    obtain ⟨_, _, _, -, rfl⟩ := Session.transcript_of_feedAll Sink.works_working hall
    rfl

/-- A line that is no text does not matter if the session ends in front of it.  If not, what has
been written so far stands. -/
theorem runInput_of_breaks (hfront : Lines.IsWhole front) (hbehind : Lines.StartsBroken behind)
    (bound : Nat) (o : Options) (context : Option String) :
    (Report.ofText bound o.configuration front = none →
      runInput bound o context (Lines.ofBytes (front.toUTF8 ++ behind)) = none) ∧
    ∀ r, Report.ofText bound o.configuration front = some r →
      (∀ number, r.ending = .sentinel number →
        runInput bound o context (Lines.ofBytes (front.toUTF8 ++ behind)) =
          some (o.complete r.text)) ∧
      (r.ending = .endOfInput → ∃ written s,
        (Session.start o.configuration).Transcript (Lines.ofText front) written s ∧
        s.hasEnded = false ∧
        runInput bound o context (Lines.ofBytes (front.toUTF8 ++ behind)) =
          some (o.brokenOff context (outputText written.flatten.toArray))) := by
  obtain ⟨rest, hrest⟩ : ∃ rest, Lines.ofBytes behind = .error Lines.notText :: rest :=
    List.head?_eq_some_iff.1 hbehind
  rw [Lines.ofBytes_append hfront, hrest, runInput]
  rcases Session.feedAll_append (s := .start o.configuration) Sink.works_working rfl bound
    (Lines.ofText front) with hnone |
    ⟨s', items, flushes, looked, number, hending, hall⟩ |
    ⟨written, s', flushes, hcourse, hrunning, hall⟩
  · have hall := hnone []
    rw [List.append_nil] at hall
    rw [Report.ofText, hall, hnone]
    exact ⟨fun _ => rfl, fun _ hr => (by cases hr)⟩
  · have hfirst := hall []
    rw [List.append_nil] at hfirst
    rw [Report.ofText, hfirst, hall]
    refine ⟨fun hr => (by cases hr), fun r hr => ?_⟩
    cases hr
    refine ⟨fun _ _ => rfl, fun hend => ?_⟩
    rw [hending] at hend
    cases hend
  · have hfirst := hall []
    rw [List.append_nil] at hfirst
    rw [Report.ofText, hfirst, hall, Session.feedAll, Session.feedAll,
      Session.tells_finish s' _ (Sink.works_working.taking _ _)]
    refine ⟨fun hr => (by cases hr), fun r hr => ?_⟩
    cases hr
    refine ⟨fun number hend => ?_, fun _ => ⟨written, s', hcourse, hrunning, ?_⟩⟩
    · rw [Session.ending_finished hrunning] at hend
      cases hend
    · rw [← Sink.text_working_taking written.flatten flushes]
      rfl

/-- **The program does what the library does.**  Whatever the options are, let the program be read
from some bytes, on standard input or in a file.

If the bytes are a text, the run ends exactly if the library's run of that text does, with exit code
zero, and its output stands between the banner and the farewell, however many errors it reports.

If they are a text only up to some line, what counts is how the run of that text ends.  If it ends
at a sentinel, the exit is the same as above: nothing behind the sentinel is decoded.  If it does
not, the exit code is one, and behind the banner stands what has been written for the lines of the
text, with neither the report of an open block nor the farewell.

One of the two is always the case. -/
theorem execute_eq_report (bound : Nat) (o : Options)
    (hreads : o.Reads stdin openFile bytes context) :
    (∀ text : String, bytes = text.toUTF8 →
      execute bound o stdin openFile =
        (Report.ofText bound o.configuration text).map fun r => o.complete r.text) ∧
    (∀ (front : String) (behind : ByteArray), bytes = front.toUTF8 ++ behind →
      Lines.IsWhole front → Lines.StartsBroken behind →
      (Report.ofText bound o.configuration front = none →
        execute bound o stdin openFile = none) ∧
      ∀ r, Report.ofText bound o.configuration front = some r →
        (∀ number, r.ending = .sentinel number →
          execute bound o stdin openFile = some (o.complete r.text)) ∧
        (r.ending = .endOfInput → ∃ written s,
          (Session.start o.configuration).Transcript (Lines.ofText front) written s ∧
          s.hasEnded = false ∧
          execute bound o stdin openFile =
            some (o.brokenOff context (outputText written.flatten.toArray)))) ∧
    ((∃ text : String, bytes = text.toUTF8) ∨
      ∃ (front : String) (behind : ByteArray), bytes = front.toUTF8 ++ behind ∧
        Lines.IsWhole front ∧ Lines.StartsBroken behind) := by
  rw [hreads.execute_eq bound]
  refine ⟨?_, ?_, Lines.text_or_breaks bytes⟩
  · rintro text rfl
    rw [Lines.ofBytes_toUTF8, runInput_of_text]
  · rintro front behind rfl hfront hbehind
    exact runInput_of_breaks hfront hbehind bound o context

set_option maxRecDepth 2000 in
/-- A value is echoed and a block is opened; then there is a byte that is in no text. -/
theorem execute_eq_report_open_block :
    Options.Reads ⟨none, true, none, true⟩
        (Lines.ofBytes ("sah\nila sah \x7b\n".toUTF8 ++ ⟨#[255, 10, 125]⟩)) (fun _ => .ok [])
        ("sah\nila sah \x7b\n".toUTF8 ++ ⟨#[255, 10, 125]⟩) none ∧
      execute 0 ⟨none, true, none, true⟩
          (Lines.ofBytes ("sah\nila sah \x7b\n".toUTF8 ++ ⟨#[255, 10, 125]⟩)) (fun _ => .ok []) =
        some ⟨1, "sah\n", "darja: stream did not contain valid UTF-8\n"⟩ := by
  have hreads : Options.Reads ⟨none, true, none, true⟩
      (Lines.ofBytes ("sah\nila sah \x7b\n".toUTF8 ++ ⟨#[255, 10, 125]⟩)) (fun _ => .ok [])
      ("sah\nila sah \x7b\n".toUTF8 ++ ⟨#[255, 10, 125]⟩) none := .stdin rfl rfl
  have hreport : Report.ofText 0 ⟨true, none⟩ "sah\nila sah \x7b\n" =
      some ⟨#[.echoed (.boolean true), .diagnostic ⟨.unparsed .unterminatedBlock, ⟨2, 9⟩⟩],
        .endOfInput, 1, .empty⟩ := by cbv
  have hwhole : Lines.IsWhole "sah\nila sah \x7b\n" := by
    intro c hc
    cases hc
    rfl
  have hbroken : Lines.StartsBroken ⟨#[255, 10, 125]⟩ := by
    unfold Lines.StartsBroken
    cbv
  have hvalue : (Session.start ⟨true, none⟩).feedLine 0 "sah" .working =
      some ⟨⟨⟨true, none⟩, .empty, 1, 0, none, none⟩, ⟨Sink.working.writeFate,
        Sink.working.flushFate, 1, 1, #[.echoed (.boolean true)]⟩, none⟩ := by cbv
  have hopens : Session.feedLine ⟨⟨true, none⟩, .empty, 1, 0, none, none⟩ 0 "ila sah \x7b"
      .working = some ⟨⟨⟨true, none⟩, .empty, 2, 0,
        some ⟨"ila sah \x7b", 2, ⟨2, 9⟩, 1⟩, none⟩, .working, none⟩ := by cbv
  obtain ⟨-, hbreaks, -⟩ := execute_eq_report 0 ⟨none, true, none, true⟩ hreads
  obtain ⟨-, hends⟩ := hbreaks _ _ rfl hwhole hbroken
  obtain ⟨written, s, hcourse, -, hexit⟩ := (hends _ hreport).2 rfl
  obtain ⟨rfl, -⟩ := Session.Transcript.unique
    (.cons (Session.writes_of_working hvalue) (.single (Session.writes_of_working hopens))) hcourse
  exact ⟨hreads, hexit⟩

end CommandLine

end DarjaLang
