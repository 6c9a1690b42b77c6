import DarjaLang.Proofs.Evaluation.Relocation
import DarjaLang.Proofs.Lines
import DarjaLang.Proofs.Reading.Relocation
import DarjaLang.Proofs.Session.Place
import DarjaLang.Proofs.Session.WholeBlock
import DarjaLang.Session.Report

/-!
# Further lines in front of a program

The numbers of lines are there for reports only.  If a program is moved down by some empty lines,
its run is the same, and all that changes is where diagnostics say they are and at which line the
program ends.

* `Position.shiftKnown` moves places down, except for the one that stands for no token.  It is by
  this function that tokens are relocated when their text is moved down (`Token.scan_eq_relocate`).
* `Session.shiftDown` is a session that has taken more lines before everything it knows of.
* `Session.feedLine_shiftDown`, `Session.finish_shiftDown`: such a session does the same, further
  down.  This rests on `Session.Executes.position_ne_unknown`: the trouble with a line has a place.
* `Report.ofText_newlines_append` is the result.
-/

set_option autoImplicit false

namespace DarjaLang

open Located

/-! ## Places and tokens -/

/-- The place moved down, unless it stands for no token. -/
def Position.shiftKnown (k : Nat) (p : Position) : Position :=
  if p = .unknown then .unknown else p.shiftDown k

theorem Position.shiftKnown_unknown (k : Nat) : shiftKnown k .unknown = .unknown := if_pos rfl

theorem Position.shiftKnown_of_ne {p : Position} (h : p ≠ .unknown) (k : Nat) :
    shiftKnown k p = p.shiftDown k := if_neg h

/-- The same diagnostic about a text that has `k` more lines in front of it. -/
def Diagnostic.shiftDown {ε : Type} (d : Diagnostic ε) (k : Nat) : Diagnostic ε :=
  ⟨d.cause, d.position.shiftDown k⟩

namespace Token

variable {k : Nat}

theorem column_pos_of_mem_scanFrom {place : Position} {skip : Nat} {cs : List Char} {t : Token}
    (hplace : 0 < place.column) (ht : t ∈ scanFrom place skip cs) : 0 < t.position.column := by
  induction cs generalizing place skip with
  | nil => simp [scanFrom] at ht
  | cons c cs ih =>
    have hrest : ∀ {skip}, t ∈ scanFrom ⟨place.line, place.column + 1⟩ skip cs →
        0 < t.position.column := fun ht => ih (Nat.succ_pos _) ht
    cases skip with
    | succ skip => exact hrest ht
    | zero =>
      rw [scanFrom] at ht
      split at ht
      · exact hrest ht
      · rcases List.mem_cons.1 ht with rfl | ht
        · exact hplace
        · exact hrest ht

theorem column_pos_of_mem_scanLines {line : Nat} {read cs : List Char} {t : Token}
    (ht : t ∈ scanLines line read cs) : 0 < t.position.column := by
  have hline : ∀ {line cs}, t ∈ scanLine line cs → 0 < t.position.column :=
    fun ht => column_pos_of_mem_scanFrom Nat.one_pos ht
  fun_induction scanLines line read cs with
  | case1 line read =>
    rcases List.mem_append.1 ht with ht | ht
    · exact hline ht
    · rw [List.mem_singleton.1 ht]
      exact Nat.succ_pos _
  | case2 line read rest read' ih =>
    rcases List.mem_append.1 ht with ht | ht
    · exact hline ht
    rcases List.mem_cons.1 ht with rfl | ht
    · exact Nat.succ_pos _
    split at ht
    · cases ht
    · exact ih ht
  | case3 line read c rest hc ih => exact ih ht

/-- A token of a text has a place. -/
theorem position_ne_unknown_of_mem_scan {text : String} {line : Nat} {t : Token}
    (ht : t ∈ scan text line) : t.position ≠ .unknown := by
  intro h
  have hpos := column_pos_of_mem_scanLines ht
  rw [h] at hpos
  exact absurd hpos (Nat.lt_irrefl 0)

/-- To move a text down is to relocate its tokens. -/
theorem scan_eq_relocate (text : String) (line k : Nat) :
    scan text (line + k) = relocate (Position.shiftKnown k) (scan text line) := by
  rw [scan_shiftDown]
  refine List.map_congr_left fun t ht => ?_
  change _ = (⟨t.kind, t.lexeme, t.position.shiftKnown k⟩ : Token)
  rw [Position.shiftKnown_of_ne (position_ne_unknown_of_mem_scan ht)]
  rfl

theorem all_isTerminator_scan (text : String) (line k : Nat) :
    (scan text (line + k)).all isTerminator = (scan text line).all isTerminator := by
  rw [scan_shiftDown, List.all_map]
  rfl

theorem openBraces_map_shiftDown (ts : List Token) (k : Nat) :
    openBraces (ts.map (·.shiftDown k)) = (openBraces ts).map (·.shiftDown k) := by
  have hpush : ∀ stack : List Position,
      (ts.map (·.shiftDown k)).foldl pushBrace (stack.map (·.shiftDown k)) =
        (ts.foldl pushBrace stack).map (·.shiftDown k) := by
    induction ts with
    | nil => exact fun _ => rfl
    | cons t ts ih =>
      intro stack
      have hstep : pushBrace (stack.map (·.shiftDown k)) (t.shiftDown k) =
          (pushBrace stack t).map (·.shiftDown k) := by
        rw [pushBrace, pushBrace]
        cases stack <;> simp only [shiftDown] <;> split <;> rfl
      rw [List.map_cons, List.foldl_cons, List.foldl_cons, hstep, ih]
  exact hpush []

theorem outermostOpen?_scan (text : String) (line k : Nat) :
    outermostOpen? (scan text (line + k)) =
      (outermostOpen? (scan text line)).map (·.shiftDown k) := by
  rw [outermostOpen?, outermostOpen?, scan_shiftDown, openBraces_map_shiftDown, List.getLast?_map]

end Token

/-! ## Sessions that are moved down -/

/-- The same item about a text that has `k` more lines in front of it. -/
def Item.shiftDown (k : Nat) : Item → Item
  | printed line => printed line
  | echoed value => echoed value
  | diagnostic trouble => diagnostic (trouble.shiftDown k)

/-- The end of a program that has `k` more lines in front of it. -/
def Ending.shiftDown (k : Nat) : Ending → Ending
  | sentinel line => sentinel (line + k)
  | endOfInput => endOfInput

/-- The same block behind `k` more lines. -/
def PendingBlock.shiftDown (k : Nat) (block : PendingBlock) : PendingBlock :=
  ⟨block.source, block.firstLine + k, block.opening.shiftDown k, block.balance⟩

/-- The session when it has taken `k` more lines before. -/
def Session.shiftDown (k : Nat) (s : Session) : Session :=
  ⟨s.config, s.env, s.line + k, s.diagnostics, s.pending.map (·.shiftDown k),
    s.ending.map (·.shiftDown k)⟩

/-- The sink when all it has accepted is about a text that has `k` more lines in front of it. -/
def Sink.shiftDown (k : Nat) (sink : Sink) : Sink :=
  ⟨sink.writeFate, sink.flushFate, sink.writes, sink.flushes,
    sink.accepted.map (·.shiftDown k)⟩

/-- The same answer, `k` lines further down. -/
def Answer.shiftDown (k : Nat) (a : Answer) : Answer :=
  ⟨a.session.shiftDown k, a.sink.shiftDown k, a.failure⟩

namespace Sink

theorem shiftDown_working (k : Nat) : working.shiftDown k = working := by
  rw [shiftDown, working, answering, Array.map_empty]

theorem write_shiftDown (sink : Sink) (item : Item) (k : Nat) :
    (sink.shiftDown k).write (item.shiftDown k) =
      ((sink.write item).1.shiftDown k, (sink.write item).2) := by
  rw [write, write, shiftDown, shiftDown]
  dsimp only
  split
  · rw [Array.map_push]
  · rfl

theorem emit_shiftDown (sink : Sink) (item : Item) (k : Nat) :
    (sink.shiftDown k).emit (item.shiftDown k) =
      ((sink.emit item).1.shiftDown k, (sink.emit item).2) := by
  rw [emit, emit, write_shiftDown]
  obtain ⟨sink', refusal⟩ := sink.write item
  cases refusal <;> rfl

theorem emitAll_shiftDown (sink : Sink) (items : List Item) (k : Nat) :
    (sink.shiftDown k).emitAll (items.map (·.shiftDown k)) =
      ((sink.emitAll items).1.shiftDown k, (sink.emitAll items).2) := by
  induction items generalizing sink with
  | nil => rfl
  | cons item items ih =>
    rw [List.map_cons, emitAll, emitAll, emit_shiftDown]
    obtain ⟨sink', refusal⟩ := sink.emit item
    cases refusal with
    | none => exact ih sink'
    | some e => rfl

end Sink

theorem Answer.andThen_shiftDown {k : Nat} {a : Answer} {f g : Session → Sink → Answer}
    (hfg : ∀ s sink, g (s.shiftDown k) (sink.shiftDown k) = (f s sink).shiftDown k) :
    (a.shiftDown k).andThen g = (a.andThen f).shiftDown k :=
  andThen_change (·.shiftDown k) (·.shiftDown k) (hfg a.session a.sink)

namespace Session

variable {k bound : Nat} {s : Session} {sink : Sink} {text line : String} {number : Nat}

theorem report_shiftDown (trouble : Trouble) :
    (s.shiftDown k).report (trouble.shiftDown k) (sink.shiftDown k) =
      (s.report trouble sink).shiftDown k := by
  have hwrite := sink.write_shiftDown (.diagnostic trouble) k
  rw [report, report]
  change Answer.mk _ ((sink.shiftDown k).write (Item.shiftDown k (.diagnostic trouble))).1
    ((sink.shiftDown k).write (Item.shiftDown k (.diagnostic trouble))).2 = _
  rw [hwrite]
  rfl

theorem conclude_shiftDown (result : Except Trouble Flow) :
    (s.shiftDown k).conclude (result.mapError (·.shiftDown k)) (sink.shiftDown k) =
      (s.conclude result sink).shiftDown k := by
  match result with
  | .error trouble => exact report_shiftDown trouble
  | .ok .terminate => rfl
  | .ok (.next none) => rfl
  | .ok (.next (some v)) =>
    have hwrite := sink.write_shiftDown (.echoed v) k
    have hechoes : (s.shiftDown k).echoes v = s.echoes v := rfl
    change (if (s.shiftDown k).echoes v then Answer.mk _
      ((sink.shiftDown k).write (Item.shiftDown k (.echoed v))).1
      ((sink.shiftDown k).write (Item.shiftDown k (.echoed v))).2 else _) = _
    rw [hwrite, hechoes, conclude]
    split <;> rfl

/-- A text that is executed further down does the same, if its trouble has a place. -/
theorem execute_shiftDown
    (hplaced : ∀ trouble state, (Statement.ofTokens (Token.scan text number)).run s.config.limit
      bound ⟨s.env, #[]⟩ = some ⟨.error trouble, state⟩ → trouble.position ≠ .unknown) :
    (s.shiftDown k).execute bound (Token.scan text (number + k)) (sink.shiftDown k) =
      (s.execute bound (Token.scan text number) sink).map (·.shiftDown k) := by
  have hrelocated : (Statement.ofTokens (Token.scan text (number + k))).run
      (s.shiftDown k).config.limit bound ⟨(s.shiftDown k).env, #[]⟩ =
        relocate (Position.shiftKnown k) ((Statement.ofTokens (Token.scan text number)).run
          s.config.limit bound ⟨s.env, #[]⟩) := by
    rw [Token.scan_eq_relocate, Statement.ofTokens_relocate (Position.shiftKnown_unknown k)]
    exact Statement.relocates_run _ _
  rw [execute, execute, hrelocated]
  cases hrun : (Statement.ofTokens (Token.scan text number)).run s.config.limit bound
      ⟨s.env, #[]⟩ with
  | none => rfl
  | some o =>
    obtain ⟨result, env, printed⟩ := o
    have hresult : result.mapError (relocate (Position.shiftKnown k)) =
        result.mapError (·.shiftDown k) := by
      cases result with
      | ok flow => rfl
      | error trouble =>
        obtain ⟨cause, position⟩ := trouble
        have hne := Position.shiftKnown_of_ne (hplaced _ _ hrun) k
        exact congrArg (fun p => Except.error (⟨cause, p⟩ : Trouble)) hne
    have hprinted : printed.toList.map Item.printed =
        (printed.toList.map Item.printed).map (·.shiftDown k) := by
      rw [List.map_map]
      rfl
    change some (Answer.andThen ⟨_, ((sink.shiftDown k).emitAll (printed.toList.map .printed)).1,
      ((sink.shiftDown k).emitAll (printed.toList.map .printed)).2⟩ fun s sink =>
        (s.conclude (result.mapError (relocate (Position.shiftKnown k))) sink).andThen settle) = _
    rw [hresult, hprinted, Sink.emitAll_shiftDown]
    refine congrArg some (Answer.andThen_shiftDown (a := ⟨{ s with env := env }, _, _⟩) ?_)
    intro s sink
    rw [conclude_shiftDown]
    exact Answer.andThen_shiftDown fun _ _ => rfl

/-! ## Lines -/

/-- The trouble with what is executed has a place. -/
theorem Executes.position_ne_unknown {lines : List String} {ts : List Token} {limit : Option UInt64}
    {state state' : State} {trouble : Trouble} (hknows : Knows lines s) (h : s.Executes line ts)
    (hrun : (Statement.ofTokens ts).run limit bound state = some ⟨.error trouble, state'⟩) :
    trouble.position ≠ .unknown := by
  have hends := h.not_lineEnds hknows
  obtain ⟨text, number, rfl⟩ := h.exists_scan
  obtain ⟨t, ht, hposition⟩ := Statement.exists_token_of_run hends hrun
  exact hposition ▸ Token.position_ne_unknown_of_mem_scan ht

theorem ofLine?_shiftDown (line : String) (number k : Nat) :
    PendingBlock.ofLine? line (number + k) (Token.scan line (number + k)) =
      (PendingBlock.ofLine? line number (Token.scan line number)).map (·.shiftDown k) := by
  rw [PendingBlock.ofLine?, PendingBlock.ofLine?, Token.balance_scan_eq line (number + k) number,
    Token.outermostOpen?_scan, Token.scan_eq_relocate,
    Statement.ofTokens?_relocate (Position.shiftKnown_unknown k)]
  cases Statement.ofTokens? (Token.scan line number) with
  | ok st => rfl
  | error complaint =>
    obtain ⟨cause, position⟩ := complaint
    cases cause with
    | unterminatedBlock =>
      dsimp only [relocate_error, relocate_diagnostic]
      split
      · rw [Option.map_map, Option.map_map]
        rfl
      · rfl
    | _ => rfl

theorem hasEnded_shiftDown : (s.shiftDown k).hasEnded = s.hasEnded := Option.isSome_map

theorem counted_shiftDown : (s.shiftDown k).counted = s.counted.shiftDown k := by
  rw [counted, counted, shiftDown, shiftDown]
  dsimp only
  rw [Nat.add_right_comm]

theorem feedStatement_shiftDown
    (hplaced : (Token.scan line s.line).all Token.isTerminator = false →
      PendingBlock.ofLine? line s.line (Token.scan line s.line) = none →
      ∀ trouble state, (Statement.ofTokens (Token.scan line s.line)).run s.config.limit
        bound ⟨s.env, #[]⟩ = some ⟨.error trouble, state⟩ → trouble.position ≠ .unknown) :
    (s.shiftDown k).feedStatement bound line (Token.scan line (s.line + k)) (sink.shiftDown k) =
      (s.feedStatement bound line (Token.scan line s.line) sink).map (·.shiftDown k) := by
  have hblock : PendingBlock.ofLine? line (s.shiftDown k).line (Token.scan line (s.line + k)) =
      (PendingBlock.ofLine? line s.line (Token.scan line s.line)).map (·.shiftDown k) :=
    ofLine?_shiftDown line s.line k
  rw [feedStatement, feedStatement, Token.all_isTerminator_scan, hblock]
  by_cases hblank : (Token.scan line s.line).all Token.isTerminator = true
  · rw [if_pos hblank, if_pos hblank]
    rfl
  rw [if_neg hblank, if_neg hblank]
  cases hline : PendingBlock.ofLine? line s.line (Token.scan line s.line) with
  | none => exact execute_shiftDown (hplaced (Bool.not_eq_true _ ▸ hblank) hline)
  | some block => rfl

theorem feedBlock_shiftDown {block : PendingBlock}
    (hplaced : Token.isSentinelLine (Token.scan line s.line) = false →
      block.balance + Token.balance (Token.scan line s.line) ≤ 0 →
      ∀ trouble state, (Statement.ofTokens
        (block.extend line (Token.balance (Token.scan line s.line))).tokens).run s.config.limit
          bound ⟨s.env, #[]⟩ = some ⟨.error trouble, state⟩ → trouble.position ≠ .unknown) :
    (s.shiftDown k).feedBlock bound (block.shiftDown k) line (Token.scan line (s.line + k))
        (sink.shiftDown k) =
      (s.feedBlock bound block line (Token.scan line s.line) sink).map (·.shiftDown k) := by
  rw [feedBlock, feedBlock, Token.isSentinelLine_scan_eq line (s.line + k) s.line,
    Token.balance_scan_eq line (s.line + k) s.line]
  by_cases hsentinel : Token.isSentinelLine (Token.scan line s.line) = true
  · rw [if_pos hsentinel, if_pos hsentinel]
    exact congrArg some ((congrArg (Answer.andThen · _)
      (report_shiftDown (s := s.collecting none) block.complaint)).trans
        (Answer.andThen_shiftDown fun _ _ => rfl))
  rw [if_neg hsentinel, if_neg hsentinel]
  rw [Bool.not_eq_true] at hsentinel
  change (if 0 < block.balance + _ then _ else _) =
    Option.map _ (if 0 < block.balance + _ then _ else _)
  by_cases hbalance : 0 < block.balance + Token.balance (Token.scan line s.line)
  · rw [if_pos hbalance, if_pos hbalance]
    rfl
  · rw [if_neg hbalance, if_neg hbalance]
    exact execute_shiftDown (s := s.collecting none) (hplaced hsentinel (Int.not_lt.1 hbalance))

/-- A line does the same further down. -/
theorem feedLine_shiftDown {lines : List String} (hknows : Knows lines s) (line : String)
    (sink : Sink) : (s.shiftDown k).feedLine bound line (sink.shiftDown k) =
      (s.feedLine bound line sink).map (·.shiftDown k) := by
  by_cases hended : s.hasEnded = true
  · rw [feedLine_of_hasEnded hended, feedLine_of_hasEnded (hasEnded_shiftDown.trans hended)]
    rfl
  rw [Bool.not_eq_true] at hended
  have hended' : (s.shiftDown k).hasEnded = false := hasEnded_shiftDown.trans hended
  have hline : (s.shiftDown k).line + 1 = s.counted.line + k := Nat.add_right_comm s.line k 1
  cases hpending : s.pending with
  | none =>
    have hpending' : (s.shiftDown k).pending = none := congrArg (Option.map _) hpending
    rw [feedLine_of_none hended hpending, feedLine_of_none hended' hpending', hline,
      counted_shiftDown]
    exact feedStatement_shiftDown (s := s.counted) fun hline hblock _ _ =>
      (Executes.statement hended hpending hline hblock).position_ne_unknown hknows
  | some block =>
    have hpending' : (s.shiftDown k).pending = some (block.shiftDown k) :=
      congrArg (Option.map _) hpending
    rw [feedLine_of_some hended hpending, feedLine_of_some hended' hpending', hline,
      counted_shiftDown]
    exact feedBlock_shiftDown (s := s.counted) fun hline hbalance _ _ =>
      (Executes.block hended hpending hline hbalance).position_ne_unknown hknows

/-! ## Inputs -/

theorem finish_shiftDown (s : Session) (sink : Sink) :
    (s.shiftDown k).finish (sink.shiftDown k) = (s.finish sink).shiftDown k := by
  by_cases hended : s.hasEnded = true
  · rw [finish_of_hasEnded hended, finish_of_hasEnded (hasEnded_shiftDown.trans hended)]
    rfl
  rw [Bool.not_eq_true] at hended
  have hended' : (s.shiftDown k).hasEnded = false := hasEnded_shiftDown.trans hended
  cases hpending : s.pending with
  | none =>
    have hpending' : (s.shiftDown k).pending = none := congrArg (Option.map _) hpending
    rw [finish_of_none hended hpending, finish_of_none hended' hpending']
    rfl
  | some block =>
    have hpending' : (s.shiftDown k).pending = some (block.shiftDown k) :=
      congrArg (Option.map _) hpending
    rw [finish_of_some hended hpending, finish_of_some hended' hpending']
    exact (congrArg (Answer.andThen · _)
      (report_shiftDown (s := s.collecting none) block.complaint)).trans
        (Answer.andThen_shiftDown fun _ _ => rfl)

/-- A whole input does the same further down. -/
theorem feedAll_shiftDown {lines : List String} (hknows : Knows lines s)
    (input : List (Except StreamError String)) (sink : Sink) :
    (s.shiftDown k).feedAll bound input (sink.shiftDown k) =
      (s.feedAll bound input sink).map fun (a, looked) => (a.shiftDown k, looked) := by
  induction input generalizing s lines sink with
  | nil =>
    rw [feedAll, feedAll, finish_shiftDown]
    rfl
  | cons next rest ih =>
    cases next with
    | error e => rfl
    | ok line =>
      rw [feedAll, feedAll, feedLine_shiftDown hknows]
      cases hfed : s.feedLine bound line sink with
      | none => rfl
      | some a =>
        have ih := ih (hknows.feed (feedLine_eq_some_iff.1 hfed)) a.sink
        have hstops : ((a.shiftDown k).failure.isSome || (a.shiftDown k).session.hasEnded) =
            (a.failure.isSome || a.session.hasEnded) :=
          congrArg (a.failure.isSome || ·) hasEnded_shiftDown
        rw [Option.map_some]
        dsimp only
        rw [hstops]
        split
        · rfl
        · change Option.map _ ((a.session.shiftDown k).feedAll bound rest (a.sink.shiftDown k)) = _
          rw [ih, Option.map_map, Option.map_map]
          rfl

/-- Empty lines are only counted. -/
theorem feedAll_replicate (hending : s.ending = none) (hpending : s.pending = none) (k : Nat)
    (rest : List (Except StreamError String)) (sink : Sink) :
    s.feedAll bound (List.replicate k (.ok "") ++ rest) sink =
      ((s.shiftDown k).feedAll bound rest sink).map fun (a, looked) => (a, looked + k) := by
  obtain ⟨config, env, number, diagnostics, pending, ending⟩ := s
  cases hending
  cases hpending
  induction k generalizing number with
  | zero => exact Option.map_id_apply.symm
  | succ k ih =>
    have hblank : feedLine ⟨config, env, number, diagnostics, none, none⟩ bound "" sink =
        some ⟨⟨config, env, number + 1, diagnostics, none, none⟩, sink, none⟩ :=
      feedLine_eq_some_iff.2 (.blank rfl rfl rfl)
    have hshift : shiftDown (k + 1) ⟨config, env, number, diagnostics, none, none⟩ =
        shiftDown k ⟨config, env, number + 1, diagnostics, none, none⟩ := by
      rw [shiftDown, shiftDown]
      dsimp only
      rw [Nat.add_right_comm, Nat.add_assoc]
      rfl
    rw [List.replicate_succ, List.cons_append, feedAll, hblank, hshift]
    change Option.map _ (feedAll _ bound (List.replicate k (.ok "") ++ rest) sink) = _
    rw [ih, Option.map_map]
    rfl

end Session

theorem Lines.ofText_replicate_newline (k : Nat) :
    ofText (String.ofList (List.replicate k '\n')) = List.replicate k "" := by
  have hcut : ∀ k, cut '\n' '\r' [] (List.replicate k '\n') = List.replicate k [] := by
    intro k
    induction k with
    | zero => rfl
    | succ k ih =>
      rw [List.replicate_succ, cut, if_pos rfl, ih]
      rfl
  rw [ofText, String.toList_ofList, hcut, List.map_replicate]

theorem Lines.isWhole_replicate_newline (k : Nat) :
    IsWhole (String.ofList (List.replicate k '\n')) := by
  intro c hc
  rw [String.toList_ofList] at hc
  exact List.eq_of_mem_replicate (List.mem_of_getLast? hc)

/-- The report of a text that has `k` more lines in front of it. -/
def Report.shiftDown (k : Nat) (r : Report) : Report :=
  ⟨r.output.map (·.shiftDown k), r.ending.shiftDown k, r.diagnostics, r.env⟩

/-- **Line numbers are only used for reports.**  Behind `k` newlines, a text is run as it would be
without them: the same lines are printed, the same values are echoed, there are the same diagnostics
in between, and the same variables in the end.  Only the lines at which diagnostics stand, and the
one at which the program ends, are greater by `k`. -/
theorem Report.ofText_newlines_append (bound : Nat) (config : Configuration) (k : Nat)
    (text : String) :
    ofText bound config (String.ofList (List.replicate k '\n') ++ text) =
      (ofText bound config text).map (·.shiftDown k) := by
  have hlines : (Lines.ofText (String.ofList (List.replicate k '\n') ++ text)).map Except.ok =
      List.replicate k (.ok "") ++
        ((Lines.ofText text).map .ok : List (Except StreamError String)) := by
    rw [Lines.ofText_append (Lines.isWhole_replicate_newline k), Lines.ofText_replicate_newline,
      List.map_append, List.map_replicate]
  have hstart : (Session.shiftDown k (.start config)).feedAll bound
      ((Lines.ofText text).map .ok) .working =
        ((Session.start config).feedAll bound ((Lines.ofText text).map .ok) .working).map
          fun (a, looked) => (a.shiftDown k, looked) := by
    rw [← Session.feedAll_shiftDown Session.knows_start, Sink.shiftDown_working]
  rw [ofText, ofText, hlines, Session.feedAll_replicate rfl rfl, hstart]
  cases (Session.start config).feedAll bound ((Lines.ofText text).map .ok) .working with
  | none => rfl
  | some fed =>
    obtain ⟨⟨⟨_, _, _, _, _, ending⟩, sink, failure⟩, looked⟩ := fed
    cases ending <;> rfl

end DarjaLang
