import DarjaLang.Proofs.Evaluation.Printing
import DarjaLang.Proofs.Grammar.Statement.Completeness
import DarjaLang.Proofs.Session.GivenUp
import DarjaLang.Proofs.Session.Working

/-!
# What a sink cannot change

A sink may refuse what it is given, at any time.  A session tells of it, and leaves out what it had
still to say about the line, but the program is not touched: the variables, the number of lines and
the block that is being collected are the same as with any other sink.

* `Sink.print` is a sink as a printer: it is handed lines until it refuses one.
  `execute_eq_executeLive` says that a session might as well print while it evaluates.
* `Session.program` is the part of a session that the program is about.  `feedLine_program_eq` says
  that it does not depend on the sink.
* `output_changes_no_program` is the result.
-/

set_option autoImplicit false

namespace DarjaLang

open Grammar

/-! ## A sink as a printer -/

/-- Prints a line, unless something has been refused before. -/
def Sink.print (out : Sink × Option StreamError) (line : String) : Sink × Option StreamError :=
  match out.2 with
  | none => out.1.emit (.printed line)
  | some _ => out

theorem Sink.foldl_print_of_refused (sink : Sink) (e : StreamError) (lines : List String) :
    lines.foldl print (sink, some e) = (sink, some e) := by
  induction lines with
  | nil => rfl
  | cons line lines ih => exact ih

/-- To print lines one by one is to emit them up to the first failure. -/
theorem Sink.foldl_print (sink : Sink) (lines : List String) :
    lines.foldl print (sink, none) = sink.emitAll (lines.map .printed) := by
  induction lines generalizing sink with
  | nil => rfl
  | cons line lines ih =>
    rw [List.foldl_cons, List.map_cons, emitAll, print]
    dsimp only
    rcases sink.emit (.printed line) with ⟨sink', _ | e⟩
    · exact ih sink'
    · exact foldl_print_of_refused sink' e lines

namespace Session

variable {s : Session} {bound bound' : Nat} {line : String} {ts : List Token} {sink sink' : Sink}
  {a a' : Answer}

/-- Evaluates the statement that the tokens are and prints as it goes. -/
def executeLive (s : Session) (bound : Nat) (ts : List Token) (sink : Sink) : Option Answer :=
  ((Statement.ofTokens ts).runLive Sink.print s.config.limit bound ⟨s.env, (sink, none)⟩).map
    fun o => (Answer.mk { s with env := o.state.env } o.state.printer.1 o.state.printer.2).andThen
      fun s sink => (s.conclude o.result sink).andThen settle

/-- It makes no difference whether lines are printed at once or in the end. -/
theorem execute_eq_executeLive (s : Session) (bound : Nat) (ts : List Token) (sink : Sink) :
    s.execute bound ts sink = s.executeLive bound ts sink := by
  have hlive := Statement.runLive_eq Sink.print (sink, none) s.config.limit bound
    (Statement.ofTokens ts) ⟨s.env, #[]⟩
  rw [executeLive, execute, show (⟨s.env, (sink, none)⟩ : Live (Sink × Option StreamError)) =
    (⟨s.env, #[]⟩ : State).live Sink.print (sink, none) from rfl, hlive, Option.map_map]
  rcases (Statement.ofTokens ts).run s.config.limit bound ⟨s.env, #[]⟩ with
    _ | ⟨result, env, printed⟩
  · rfl
  · simp only [Option.map_some, Function.comp_apply, Outcome.live, State.live,
      ← Array.foldl_toList, Sink.foldl_print]

/-! ## The program of a session -/

/-- The variables, the number of lines, and the block that is being collected. -/
def program (s : Session) : Environment × Nat × Option PendingBlock := (s.env, s.line, s.pending)

theorem conclude_program (s : Session) (result : Except Trouble Flow) (sink : Sink) :
    (s.conclude result sink).session.program = s.program := by
  rw [conclude.eq_def]
  split
  · rfl
  · rfl
  · rfl
  · split <;> rfl

end Session

/-- A step that leaves the program alone can be left out. -/
theorem Answer.andThen_program {a : Answer} {f : Session → Sink → Answer}
    (hf : ∀ s sink, (f s sink).session.program = s.program) :
    (a.andThen f).session.program = a.session.program := by
  rw [andThen]
  split
  · rfl
  · exact hf a.session a.sink

namespace Session

variable {s : Session} {bound bound' : Nat} {line : String} {ts : List Token} {sink sink' : Sink}
  {a a' : Answer}

/-- What an execution does to the program is what the evaluation does. -/
theorem execute_program (s : Session) (bound : Nat) (ts : List Token) (sink : Sink) :
    (s.execute bound ts sink).map (·.session.program) =
      ((Statement.ofTokens ts).run s.config.limit bound ⟨s.env, #[]⟩).map
        fun o => (o.state.env, s.line, s.pending) := by
  rw [execute]
  rcases (Statement.ofTokens ts).run s.config.limit bound ⟨s.env, #[]⟩ with
    _ | ⟨result, env, printed⟩
  · rfl
  · refine congrArg some (Answer.andThen_program fun s sink => ?_)
    exact (Answer.andThen_program fun _ _ => rfl).trans (conclude_program s result sink)

/-- The sink has no influence on the program, nor on whether there is an answer. -/
theorem feedLine_program_eq (s : Session) (bound : Nat) (line : String) (sink sink' : Sink) :
    (s.feedLine bound line sink).map (·.session.program) =
      (s.feedLine bound line sink').map (·.session.program) := by
  have hexecute : ∀ (s : Session) (ts : List Token),
      (s.execute bound ts sink).map (·.session.program) =
        (s.execute bound ts sink').map (·.session.program) := fun s ts => by
    rw [execute_program, execute_program]
  by_cases hended : s.hasEnded = true
  · rw [feedLine_of_hasEnded hended, feedLine_of_hasEnded hended]
    rfl
  rw [Bool.not_eq_true] at hended
  rcases hpending : s.pending with _ | block
  · rw [feedLine_of_none hended hpending, feedLine_of_none hended hpending, feedStatement,
      feedStatement]
    split
    · rfl
    split
    · rfl
    · exact hexecute _ _
  · rw [feedLine_of_some hended hpending, feedLine_of_some hended hpending, feedBlock, feedBlock]
    dsimp only
    split
    · rw [Option.map_some, Option.map_some, Answer.andThen_program fun _ _ => rfl,
        Answer.andThen_program fun _ _ => rfl]
      rfl
    split
    · rfl
    · exact hexecute _ _

/-- **Output changes nothing but output.**  Whatever its sinks accept or refuse, a session that is
fed a line comes to the same variables, the same number of lines and the same block, and it comes to
them for one sink exactly if it does for another.  A line that cannot be written is evaluated like
any other, and so is everything behind it: to print while evaluating is to print in the end, and an
evaluation that prints goes its way whatever its printer does. -/
theorem output_changes_no_program (s : Session) (line : String) :
    (∀ bound sink sink', (s.feedLine bound line sink).isSome =
      (s.feedLine bound line sink').isSome) ∧
    (∀ bound bound' sink sink' a a', s.feedLine bound line sink = some a →
      s.feedLine bound' line sink' = some a' →
      a.session.env = a'.session.env ∧ a.session.line = a'.session.line ∧
        a.session.pending = a'.session.pending ∧
        a.session.awaitsBlock = a'.session.awaitsBlock) ∧
    (∀ bound ts sink, s.execute bound ts sink = s.executeLive bound ts sink) ∧
    ∀ (σ σ' : Type) (say : σ → String → σ) (say' : σ' → String → σ') (printer : σ)
      (printer' : σ') (limit : Option UInt64) (bound : Nat) (st : Statement) (env : Environment),
      (st.runLive say limit bound ⟨env, printer⟩).map LiveOutcome.unheard =
        (st.runLive say' limit bound ⟨env, printer'⟩).map LiveOutcome.unheard := by
  refine ⟨fun bound sink sink' => ?_, fun bound bound' sink sink' a a' ha ha' => ?_,
    execute_eq_executeLive s,
    fun _ _ say say' printer printer' _ _ => Statement.runLive_unheard_eq say say' printer printer'⟩
  · have h := congrArg Option.isSome (feedLine_program_eq s bound line sink sink')
    rwa [Option.isSome_map, Option.isSome_map] at h
  · have ha := feedLine_mono (Nat.le_max_left bound bound') ha
    have ha' := feedLine_mono (Nat.le_max_right bound bound') ha'
    have h := feedLine_program_eq s (max bound bound') line sink sink'
    rw [ha, ha'] at h
    obtain ⟨henv, hrest⟩ := Prod.mk.inj (Option.some.inj h)
    obtain ⟨hline, hpending⟩ := Prod.mk.inj hrest
    refine ⟨henv, hline, hpending, ?_⟩
    rw [awaitsBlock, awaitsBlock, hpending]

/-- A block that prints and then assigns. -/
theorem ofTokens?_print_then_assign :
    Statement.ofTokens? (Token.scan "ila sah \x7b\nkteb sah\nx = sah\n\x7d" 1) =
      .ok (.conditional [(.literal (.boolean true) ⟨1, 5⟩,
        [.print [.literal (.boolean true) ⟨2, 6⟩] ⟨2, 1⟩,
          .assignment "x" (.literal (.boolean true) ⟨3, 5⟩) ⟨3, 1⟩])] none ⟨1, 1⟩) := by
  have hliteral : ∀ d place, IsExpr .disjunction d [⟨.boolean true, "sah", place⟩]
      (.literal (.boolean true) place) := fun _ _ => .of_primary (.literal rfl) _
  have hprint := IsStatement.print (d := 1) (t := ⟨.keyword .kteb, "kteb", ⟨2, 1⟩⟩) rfl
    (.one (hliteral 1 ⟨2, 6⟩))
  have hassign := IsStatement.assignment (d := 1) (t := ⟨.identifier "x", "x", ⟨3, 1⟩⟩)
    (u := ⟨.assign, "=", ⟨3, 3⟩⟩) rfl rfl (hliteral 1 ⟨3, 5⟩)
  have hend : ∀ place, LineEnds [⟨.endOfLine, "\n", place⟩] := fun _ =>
    List.forall_mem_singleton.2 rfl
  have hblock := IsBlock.braces (o := ⟨.leftBrace, "\x7b", ⟨1, 9⟩⟩)
    (c := ⟨.rightBrace, "\x7d", ⟨4, 1⟩⟩) rfl (hend ⟨1, 10⟩) rfl (by decide)
    (.line hprint (hend ⟨2, 9⟩) (by simp) (.last hassign (hend ⟨3, 8⟩)))
  have hline := IsLine.statement (.conditional (t := ⟨.keyword .ila, "ila", ⟨1, 1⟩⟩) rfl
    (hliteral 0 ⟨1, 5⟩) hblock .none)
  have hafter : LineEnds [⟨.endOfLine, "", ⟨4, 2⟩⟩] := List.forall_mem_singleton.2 rfl
  exact hline.ofTokens? (by cbv) .nil hafter

/-- The line that closes the block has it executed. -/
theorem feedLine_print_then_assign (sink : Sink) :
    feedLine ⟨⟨true, none⟩, .empty, 3, 0,
      some ⟨"ila sah \x7b\nkteb sah\nx = sah", 1, ⟨1, 9⟩, 1⟩, none⟩ 0 "\x7d" sink =
        execute ⟨⟨true, none⟩, .empty, 4, 0, none, none⟩ 0
          (Token.scan ("ila sah \x7b\nkteb sah\nx = sah" ++ "\n" ++ "\x7d") 1) sink := by
  have hpending : (⟨⟨true, none⟩, .empty, 3, 0,
      some ⟨"ila sah \x7b\nkteb sah\nx = sah", 1, ⟨1, 9⟩, 1⟩, none⟩ : Session).pending =
        some ⟨"ila sah \x7b\nkteb sah\nx = sah", 1, ⟨1, 9⟩, 1⟩ := rfl
  have hline : Token.isSentinelLine (Token.scan "\x7d" (3 + 1)) = false := by cbv
  have hbalance : 1 + Token.balance (Token.scan "\x7d" (3 + 1)) ≤ 0 := by decide
  rw [feedLine_of_closes rfl hpending hline hbalance]
  rfl

/-- A block prints a line that is refused, and assigns to a variable all the same. -/
theorem output_changes_no_program_closed :
    ∃ s a a', Session.feedLine s 0 "\x7d" closedSink = some a ∧
      Session.feedLine s 0 "\x7d" .working = some a' ∧
      a.failure = some ⟨.brokenPipe, "closed"⟩ ∧ a'.failure = none ∧
      a.session.env = Environment.empty.assign "x" (.boolean true) ∧
      a.session.env = a'.session.env ∧ a.session.line = a'.session.line ∧
      a.session.awaitsBlock = a'.session.awaitsBlock := by
  have hrun : (Statement.ofTokens (Token.scan "ila sah \x7b\nkteb sah\nx = sah\n\x7d" 1)).run none 0
      ⟨.empty, #[]⟩ = some ⟨.ok (.next none),
        ⟨Environment.empty.assign "x" (.boolean true), #["sah"]⟩⟩ := by
    rw [(ofTokens_valid_iff.2 ofTokens?_print_then_assign).1]
    cbv
  have hsource : "ila sah \x7b\nkteb sah\nx = sah" ++ "\n" ++ "\x7d" =
      "ila sah \x7b\nkteb sah\nx = sah\n\x7d" := by decide
  have hclosed : feedLine ⟨⟨true, none⟩, .empty, 3, 0,
      some ⟨"ila sah \x7b\nkteb sah\nx = sah", 1, ⟨1, 9⟩, 1⟩, none⟩ 0 "\x7d" closedSink =
        some ⟨⟨⟨true, none⟩, Environment.empty.assign "x" (.boolean true), 4, 0, none, none⟩,
          ⟨closedSink.writeFate, closedSink.flushFate, 1, 0, #[]⟩,
          some ⟨.brokenPipe, "closed"⟩⟩ := by
    rw [feedLine_print_then_assign, hsource, execute, hrun]
    rfl
  have hworking : feedLine ⟨⟨true, none⟩, .empty, 3, 0,
      some ⟨"ila sah \x7b\nkteb sah\nx = sah", 1, ⟨1, 9⟩, 1⟩, none⟩ 0 "\x7d" .working =
        some ⟨⟨⟨true, none⟩, Environment.empty.assign "x" (.boolean true), 4, 0, none, none⟩,
          ⟨Sink.working.writeFate, Sink.working.flushFate, 1, 2, #[.printed "sah"]⟩, none⟩ := by
    rw [feedLine_print_then_assign, hsource, execute, hrun]
    rfl
  obtain ⟨-, hsame, -⟩ := output_changes_no_program ⟨⟨true, none⟩, .empty, 3, 0,
      some ⟨"ila sah \x7b\nkteb sah\nx = sah", 1, ⟨1, 9⟩, 1⟩, none⟩ "\x7d"
  obtain ⟨henv, hline, -, hawaits⟩ := hsame 0 0 closedSink .working _ _ hclosed hworking
  exact ⟨_, _, _, hclosed, hworking, rfl, rfl, rfl, henv, hline, hawaits⟩

end Session

end DarjaLang
