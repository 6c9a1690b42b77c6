import DarjaLang.Evaluation.Error

/-!
# Output

A session hands items to a sink: the lines that `kteb` prints, the values it echoes, and its
diagnostics.  Items are kept apart from their texts, so that one can still tell what a line of the
output is; an item takes one line, and its text is only formed at the end.

A sink need not accept what it is given.  It is described by how it answers each write and each
flush, counted from its beginning, and by the items it has accepted.  A write that fails delivers
nothing.
-/

set_option autoImplicit false

namespace DarjaLang

/-- What a session has to say. -/
inductive Item
  | printed (line : String)
  | echoed (value : Value)
  | diagnostic (trouble : Trouble)

/-- An item as a line of output. -/
def Item.text : Item → String
  | printed line => line
  | echoed value => value.text
  | diagnostic trouble => trouble.text EvalError.message

/-- Items as lines of output. -/
def outputText (items : Array Item) : String :=
  items.foldl (fun out item => out ++ item.text ++ "\n") ""

/-- The kinds of stream failures that are told apart. -/
inductive StreamError.Kind
  | brokenPipe
  | timedOut
  | invalidData
  | other
  deriving DecidableEq, Repr

/-- A failure to read or write a stream. -/
structure StreamError where
  kind : StreamError.Kind
  message : String
  deriving DecidableEq, Repr

/-- A place that items are written to. -/
structure Sink where
  /-- How the sink answers its writes. -/
  writeFate : Nat → Option StreamError
  /-- How the sink answers its flushes. -/
  flushFate : Nat → Option StreamError
  writes : Nat
  flushes : Nat
  accepted : Array Item

namespace Sink

/-- A sink that answers in the given way and has not been used. -/
def answering (writeFate flushFate : Nat → Option StreamError) : Sink :=
  ⟨writeFate, flushFate, 0, 0, #[]⟩

/-- A sink that accepts everything. -/
def working : Sink := answering (fun _ => none) (fun _ => none)

/-- Offers an item, and says whether it was refused. -/
def write (sink : Sink) (item : Item) : Sink × Option StreamError :=
  let refusal := sink.writeFate sink.writes
  let accepted := if refusal.isNone then sink.accepted.push item else sink.accepted
  (⟨sink.writeFate, sink.flushFate, sink.writes + 1, sink.flushes, accepted⟩, refusal)

/-- Asks for everything to be delivered. -/
def flush (sink : Sink) : Sink × Option StreamError :=
  (⟨sink.writeFate, sink.flushFate, sink.writes, sink.flushes + 1, sink.accepted⟩,
    sink.flushFate sink.flushes)

/-- Writes and flushes. -/
def emit (sink : Sink) (item : Item) : Sink × Option StreamError :=
  match sink.write item with
  | (sink, none) => sink.flush
  | refused => refused

/-- Emits items up to the first failure. -/
def emitAll (sink : Sink) : List Item → Sink × Option StreamError
  | [] => (sink, none)
  | item :: items =>
    match sink.emit item with
    | (sink, none) => sink.emitAll items
    | refused => refused

/-- Everything accepted, one line for each item. -/
def text (sink : Sink) : String := outputText sink.accepted

end Sink

end DarjaLang
