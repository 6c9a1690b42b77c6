import DarjaLang.Evaluation.Statement
import DarjaLang.Session.Output
import DarjaLang.Syntax.Statement
import DarjaLang.Token.Braces
import DarjaLang.Token.Lexer

/-!
# Sessions

A session is fed a program line by line.  A line is a statement of its own, unless it opens a block
that it does not close: then the session collects lines until the braces balance, and takes all of
them together for one statement.  Only a line whose sole fault is the open block is collected; any
other faulty line is reported at once.

A session ends at a line that says `khlas`, or when it is told that there are no more lines.  A
block that is still being collected then is reported as never closed.  Nothing that is wrong with a
line ends a session.

Output is written as it arises, and a sink may fail.  Evaluation does not depend on that: the lines
that a statement prints are offered to the sink after it has been evaluated, and a failure is only
returned.  What a failure cuts off is the rest of the session's own work on the line: after one,
nothing more is echoed or reported for it, and the session is not ended by it.

* `Session.feedLine` takes one line, `Session.finish` the end of the input.
* `Session.feedAll` takes lines until the session ends.
-/

set_option autoImplicit false

namespace DarjaLang

/-- How a session is set up. -/
structure Configuration where
  /-- Whether the values of expression statements are written out. -/
  echo : Bool
  /-- How often a run of a loop may pass through its body. -/
  limit : Option UInt64

/-- Why a session ended. -/
inductive Ending
  /-- The given line said `khlas`. -/
  | sentinel (line : Nat)
  | endOfInput
  deriving DecidableEq, Repr

/-- A block that is being collected. -/
structure PendingBlock where
  /-- The lines so far. -/
  source : String
  firstLine : Nat
  /-- The brace that the first line leaves open. -/
  opening : Position
  /-- How many more braces have been opened than closed. -/
  balance : Int

/-- The state of a session. -/
structure Session where
  config : Configuration
  env : Environment
  /-- How many lines have been taken. -/
  line : Nat
  /-- How many diagnostics have been reported. -/
  diagnostics : Nat
  pending : Option PendingBlock
  ending : Option Ending

/-- What a session and its sink have become, and the failure that stopped the step, if any. -/
structure Answer where
  session : Session
  sink : Sink
  failure : Option StreamError

namespace PendingBlock

/-- Collects one more line. -/
def extend (block : PendingBlock) (line : String) (weight : Int) : PendingBlock :=
  ⟨block.source ++ "\n" ++ line, block.firstLine, block.opening, block.balance + weight⟩

/-- The tokens of all the lines together. -/
def tokens (block : PendingBlock) : List Token := Token.scan block.source block.firstLine

/-- The complaint that the block was never closed. -/
def complaint (block : PendingBlock) : Trouble := ⟨.unparsed .unterminatedBlock, block.opening⟩

/-- The block that a line starts, given the number and the tokens of the line: its only fault must
be that a block is still open. -/
def ofLine? (line : String) (number : Nat) (ts : List Token) : Option PendingBlock :=
  match Statement.ofTokens? ts with
  | .error ⟨.unterminatedBlock, _⟩ =>
    if 0 < Token.balance ts then
      (Token.outermostOpen? ts).map fun opening => ⟨line, number, opening, Token.balance ts⟩
    else none
  | _ => none

end PendingBlock

namespace Session

/-- A session before its first line. -/
def start (config : Configuration) : Session := ⟨config, .empty, 0, 0, none, none⟩

/-- Whether the session has ended. -/
def hasEnded (s : Session) : Bool := s.ending.isSome

/-- Whether a block is being collected. -/
def awaitsBlock (s : Session) : Bool := s.pending.isSome

/-- The session after it has ended. -/
def endedBy (s : Session) (ending : Ending) : Session := { s with ending := some ending }

/-- Counts a diagnostic and writes it. -/
def report (s : Session) (trouble : Trouble) (sink : Sink) : Answer :=
  let (sink, failure) := sink.write (.diagnostic trouble)
  ⟨{ s with diagnostics := s.diagnostics + 1 }, sink, failure⟩

/-- Whether the value of an expression statement is written out. -/
def echoes (s : Session) : Value → Bool
  | .walou => false
  | _ => s.config.echo

/-- Acts on the end of a statement: echoes a value, ends the session, or reports trouble. -/
def conclude (s : Session) (result : Except Trouble Flow) (sink : Sink) : Answer :=
  match result with
  | .error trouble => s.report trouble sink
  | .ok .terminate => ⟨s.endedBy (.sentinel s.line), sink, none⟩
  | .ok (.next none) => ⟨s, sink, none⟩
  | .ok (.next (some v)) =>
    if s.echoes v then
      let (sink, failure) := sink.write (.echoed v)
      ⟨s, sink, failure⟩
    else ⟨s, sink, none⟩

end Session

/-- Goes on with a step that nothing has stopped so far. -/
def Answer.andThen (a : Answer) (f : Session → Sink → Answer) : Answer :=
  match a.failure with
  | some _ => a
  | none => f a.session a.sink

namespace Session

/-- Flushes the sink. -/
def settle (s : Session) (sink : Sink) : Answer :=
  let (sink, failure) := sink.flush
  ⟨s, sink, failure⟩

/-- Evaluates the statement that the tokens are and writes what comes of it. -/
def execute (s : Session) (bound : Nat) (ts : List Token) (sink : Sink) : Option Answer :=
  match (Statement.ofTokens ts).run s.config.limit bound ⟨s.env, #[]⟩ with
  | none => none
  | some ⟨result, ⟨env, printed⟩⟩ =>
    let s := { s with env := env }
    let (sink, failure) := sink.emitAll (printed.toList.map .printed)
    some <| (Answer.mk s sink failure).andThen fun s sink =>
      (s.conclude result sink).andThen settle

/-- Takes a line that belongs to a block.  A sentinel line ends the session; any other line is
collected, and evaluates the block if that closes it. -/
def feedBlock (s : Session) (bound : Nat) (block : PendingBlock) (line : String)
    (ts : List Token) (sink : Sink) : Option Answer :=
  let s := { s with pending := none }
  if Token.isSentinelLine ts then
    some <| (s.report block.complaint sink).andThen fun s sink =>
      ⟨s.endedBy (.sentinel s.line), sink, none⟩
  else
    let block := block.extend line (Token.balance ts)
    if 0 < block.balance then some ⟨{ s with pending := some block }, sink, none⟩
    else s.execute bound block.tokens sink

/-- Takes a line while no block is being collected. -/
def feedStatement (s : Session) (bound : Nat) (line : String) (ts : List Token) (sink : Sink) :
    Option Answer :=
  if ts.all Token.isTerminator then some ⟨s, sink, none⟩
  else
    match PendingBlock.ofLine? line s.line ts with
    | some block => some ⟨{ s with pending := some block }, sink, none⟩
    | none => s.execute bound ts sink

/-- Takes one line.  A session that has ended takes no notice. -/
def feedLine (s : Session) (bound : Nat) (line : String) (sink : Sink) : Option Answer :=
  if s.hasEnded then some ⟨s, sink, none⟩
  else
    let s := { s with line := s.line + 1 }
    let ts := Token.scan line s.line
    match s.pending with
    | some block => s.feedBlock bound block line ts sink
    | none => s.feedStatement bound line ts sink

/-- Lines after the end change nothing. -/
theorem feedLine_of_hasEnded {s : Session} (h : s.hasEnded = true) (bound : Nat) (line : String)
    (sink : Sink) : s.feedLine bound line sink = some ⟨s, sink, none⟩ := by
  simp [feedLine, h]

/-- Takes the end of the input.  A session that has ended takes no notice. -/
def finish (s : Session) (sink : Sink) : Answer :=
  if s.hasEnded then ⟨s, sink, none⟩
  else
    let reported := match s.pending with
      | some block => { s with pending := none }.report block.complaint sink
      | none => ⟨s, sink, none⟩
    reported.andThen fun s sink => ⟨s.endedBy .endOfInput, sink, none⟩

/-- The end of the input changes nothing after another end. -/
theorem finish_of_hasEnded {s : Session} (h : s.hasEnded = true) (sink : Sink) :
    s.finish sink = ⟨s, sink, none⟩ := by
  simp [finish, h]

/-- Takes lines until the session ends or something fails, and the end of the input behind the
last one.  Reading a line may fail, too.  The second result counts the lines that were looked at. -/
def feedAll (s : Session) (bound : Nat) :
    List (Except StreamError String) → Sink → Option (Answer × Nat)
  | [], sink => some (s.finish sink, 0)
  | .error e :: _, sink => some (⟨s, sink, some e⟩, 1)
  | .ok line :: rest, sink =>
    match s.feedLine bound line sink with
    | none => none
    | some a =>
      if a.failure.isSome || a.session.hasEnded then some (a, 1)
      else (a.session.feedAll bound rest a.sink).map fun (a, looked) => (a, looked + 1)

end Session

end DarjaLang
