import DarjaLang.Proofs.Machine.Evaluation
import DarjaLang.Proofs.Machine.Scan
import DarjaLang.Proofs.Session.Step

/-!
# Sessions on a machine

A session scans and evaluates; everything else that it does needs nothing of the machine.

* `execute`, `feedLine` and `feedAll` are the steps of a session with the scanner and the
  evaluation of a machine.
* `feedAll_faultless` is the result: whatever a session is fed and wherever it writes to, no fault
  is ever met, except for a counter that is used up where there is no limit.
-/

set_option autoImplicit false

namespace DarjaLang

namespace Machine

/-! ## The steps of a session -/

/-- Evaluates the statement that the tokens are and writes what comes of it. -/
def execute (s : Session) (bound : Nat) (ts : List Token) (sink : Sink) :
    Machine (Option Answer) := do
  let o ← run s.config.limit bound (Statement.ofTokens ts) ⟨s.env, #[]⟩
  return o.map (s.wrapUp sink)

/-- Takes a line that belongs to a block. -/
def feedBlock (s : Session) (bound : Nat) (block : PendingBlock) (line : String)
    (ts : List Token) (sink : Sink) : Machine (Option Answer) :=
  let s := s.collecting none
  if Token.isSentinelLine ts then
    .ok <| some <| (s.report block.complaint sink).andThen fun s sink =>
      ⟨s.endedBy (.sentinel s.line), sink, none⟩
  else
    let block := block.extend line (Token.balance ts)
    if 0 < block.balance then .ok (some ⟨s.collecting (some block), sink, none⟩)
    else scan block.source block.firstLine >>= fun ts => execute s bound ts sink

/-- Takes a line while no block is being collected. -/
def feedStatement (s : Session) (bound : Nat) (line : String) (ts : List Token) (sink : Sink) :
    Machine (Option Answer) :=
  if ts.all Token.isTerminator then .ok (some ⟨s, sink, none⟩)
  else
    match PendingBlock.ofLine? line s.line ts with
    | some block => .ok (some ⟨s.collecting (some block), sink, none⟩)
    | none => execute s bound ts sink

/-- Takes one line. -/
def feedLine (s : Session) (bound : Nat) (line : String) (sink : Sink) :
    Machine (Option Answer) :=
  if s.hasEnded then .ok (some ⟨s, sink, none⟩)
  else do
    let ts ← scan line s.counted.line
    match s.pending with
    | some block => feedBlock s.counted bound block line ts sink
    | none => feedStatement s.counted bound line ts sink

/-- Takes lines until the session ends or something fails. -/
def feedAll (s : Session) (bound : Nat) :
    List (Except StreamError String) → Sink → Machine (Option (Answer × Nat))
  | [], sink => .ok (some (s.finish sink, 0))
  | .error e :: _, sink => .ok (some (⟨s, sink, some e⟩, 1))
  | .ok line :: rest, sink => do
    match ← feedLine s bound line sink with
    | none => return none
    | some a =>
      if a.failure.isSome || a.session.hasEnded then return some (a, 1)
      else
        let r ← feedAll a.session bound rest a.sink
        return r.map fun (a, looked) => (a, looked + 1)

/-! ## What a session does on a machine -/

variable {s : Session} {bound : Nat} {line : String} {ts : List Token} {sink : Sink}

theorem follows_execute : Follows s.config.limit bound (execute s bound ts sink)
    (s.execute bound ts sink) := by
  rw [Session.execute_eq_map_wrapUp]
  exact (tracks_run _ _).bind (.agrees _)

theorem follows_feedBlock {block : PendingBlock} :
    Follows s.config.limit bound (feedBlock s bound block line ts sink)
      (s.feedBlock bound block line ts sink) := by
  rw [feedBlock, Session.feedBlock]
  dsimp only
  split
  · exact .agrees _
  split
  · exact .agrees _
  · rw [scan_eq]
    exact @follows_execute (s.collecting none) bound _ sink

theorem follows_feedStatement : Follows s.config.limit bound (feedStatement s bound line ts sink)
    (s.feedStatement bound line ts sink) := by
  rw [feedStatement, Session.feedStatement]
  split
  · exact .agrees _
  cases PendingBlock.ofLine? line s.line ts with
  | some block => exact .agrees _
  | none => exact follows_execute

/-- A session takes a line on a machine as expected. -/
theorem follows_feedLine : Follows s.config.limit bound (feedLine s bound line sink)
    (s.feedLine bound line sink) := by
  rw [feedLine]
  split
  · next hended =>
    rw [Session.feedLine_of_hasEnded hended]
    exact .agrees _
  · next hended =>
    rw [Bool.not_eq_true] at hended
    rw [scan_eq]
    rcases hpending : s.pending with _ | block
    · rw [Session.feedLine_of_none hended hpending]
      exact @follows_feedStatement s.counted bound line _ sink
    · rw [Session.feedLine_of_some hended hpending]
      exact @follows_feedBlock s.counted bound line _ sink block

/-- A line leaves the configuration of a session alone. -/
theorem config_of_feedLine {a : Answer} (h : s.feedLine bound line sink = some a) :
    a.session.config = s.config := by
  cases Session.feedLine_eq_some_iff.1 h with
  | statement _ _ _ _ ha => exact (Session.execute_samePlace ha).config
  | givesUp => exact (Answer.andThen_samePlace (Session.report_samePlace _)
      fun _ => Session.endedBy_samePlace _).config
  | closes _ _ _ _ ha => exact (Session.execute_samePlace ha).config
  | _ => rfl

/-- A session takes its input on a machine as expected. -/
theorem follows_feedAll {input : List (Except StreamError String)} :
    Follows s.config.limit bound (feedAll s bound input sink) (s.feedAll bound input sink) := by
  induction input generalizing s sink with
  | nil => exact .agrees _
  | cons item input ih =>
    cases item with
    | error e => exact .agrees _
    | ok line =>
      rw [feedAll, Session.feedAll]
      refine follows_feedLine.bind ?_
      rcases hline : s.feedLine bound line sink with _ | a
      · exact .agrees _
      dsimp only
      split
      · exact .agrees _
      · rw [← config_of_feedLine hline]
        exact ih.bind (.agrees _)

/-- **No program makes a machine fault.**  Whatever the configuration, the lines and the sink are,
a session does on a machine what it is expected to do.  There is only one way out of it: where there
is no limit, the counter of a loop is used up by `2 ^ 64` passes. -/
theorem feedAll_faultless (config : Configuration) (bound : Nat)
    (input : List (Except StreamError String)) (sink : Sink) :
    feedAll (.start config) bound input sink =
        .ok ((Session.start config).feedAll bound input sink) ∨
      config.limit = none ∧ UInt64.size ≤ bound ∧
        feedAll (.start config) bound input sink = .error .counter :=
  follows_feedAll.eq_ok_or

end Machine

end DarjaLang
