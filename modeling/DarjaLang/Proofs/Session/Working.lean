import DarjaLang.Proofs.Evaluation.Bound
import DarjaLang.Proofs.Session.Output

/-!
# Sessions with a sink that works

A sink that refuses nothing has no say in what a session does: it is only appended to.  So what a
session writes for a line, and what it becomes, can be told without a sink.

* `Sink.taking` is a sink that has accepted some more, and `Sink.emitAll_of_works` says that a sink
  that works accepts everything.
* `Steady` says that a step gives all sinks that work the same items, and `steady_feedLine` and
  `tells_finish` say it of the steps of a session.
* `Session.Writes s line items s'` says that the session writes the items for the line and becomes
  `s'`.  There is at most one answer (`Writes.unique`).
-/

set_option autoImplicit false

namespace DarjaLang

namespace Sink

variable {sink : Sink}

/-- The sink refuses nothing. -/
structure Works (sink : Sink) : Prop where
  write : ∀ n, sink.writeFate n = none
  flush : ∀ n, sink.flushFate n = none

theorem works_working : working.Works := ⟨fun _ => rfl, fun _ => rfl⟩

/-- The sink when it has accepted further items and has been flushed so many times. -/
def taking (sink : Sink) (items : List Item) (flushes : Nat) : Sink :=
  ⟨sink.writeFate, sink.flushFate, sink.writes + items.length, sink.flushes + flushes,
    sink.accepted ++ items⟩

@[simp] theorem taking_nil : sink.taking [] 0 = sink := by
  simp [taking]

@[simp] theorem taking_taking (items more : List Item) (flushes flushes' : Nat) :
    (sink.taking items flushes).taking more flushes' =
      sink.taking (items ++ more) (flushes + flushes') := by
  have haccepted : sink.accepted ++ items ++ more = sink.accepted ++ (items ++ more) :=
    Array.toList_inj.1 (by simp)
  simp [taking, Nat.add_assoc, haccepted]

@[simp] theorem toList_accepted_taking (items : List Item) (flushes : Nat) :
    (sink.taking items flushes).accepted.toList = sink.accepted.toList ++ items := by
  simp [taking]

/-- A sink shows what it has accepted. -/
theorem eq_of_taking_eq {items items' : List Item} {flushes flushes' : Nat}
    (h : sink.taking items flushes = sink.taking items' flushes') : items = items' := by
  have haccepted := congrArg (fun sink => sink.accepted.toList) h
  rw [toList_accepted_taking, toList_accepted_taking] at haccepted
  exact List.append_cancel_left haccepted

theorem Works.taking (h : sink.Works) (items : List Item) (flushes : Nat) :
    (sink.taking items flushes).Works := ⟨h.write, h.flush⟩

theorem write_of_works (h : sink.Works) (item : Item) :
    sink.write item = (sink.taking [item] 0, none) := by
  simp [write, taking, h.write]

theorem flush_of_works (h : sink.Works) : sink.flush = (sink.taking [] 1, none) := by
  simp [flush, taking, h.flush]

theorem emit_of_works (h : sink.Works) (item : Item) :
    sink.emit item = (sink.taking [item] 1, none) := by
  rw [emit, write_of_works h]
  dsimp only
  rw [flush_of_works (h.taking _ _), taking_taking]
  rfl

/-- A sink that works accepts everything. -/
theorem emitAll_of_works (h : sink.Works) (items : List Item) :
    sink.emitAll items = (sink.taking items items.length, none) := by
  induction items generalizing sink with
  | nil => rw [emitAll, List.length_nil, taking_nil]
  | cons item items ih =>
    rw [emitAll, emit_of_works h]
    dsimp only
    rw [ih (h.taking _ _), taking_taking, List.length_cons, Nat.add_comm 1]
    rfl

end Sink

/-! ## Steps -/

/-- To every sink that works, the step answers with this session, these items and no failure. -/
def Tells (f : Sink → Answer) (s : Session) (items : List Item) (flushes : Nat) : Prop :=
  ∀ sink : Sink, sink.Works → f sink = ⟨s, sink.taking items flushes, none⟩

/-- The step does not end, or it gives the same answer to all sinks that work. -/
def Steady (f : Sink → Option Answer) : Prop :=
  (∀ sink, f sink = none) ∨
    ∃ s items flushes, ∀ sink, sink.Works → f sink = some ⟨s, sink.taking items flushes, none⟩

theorem Tells.andThen {f : Sink → Answer} {g : Session → Sink → Answer} {s s' : Session}
    {items more : List Item} {flushes flushes' : Nat} (hf : Tells f s items flushes)
    (hg : Tells (g s) s' more flushes') :
    Tells (fun sink => (f sink).andThen g) s' (items ++ more) (flushes + flushes') := by
  intro sink hsink
  dsimp only
  rw [hf sink hsink, Answer.andThen]
  dsimp only
  rw [hg _ (hsink.taking _ _), Sink.taking_taking]

theorem Tells.steady {f : Sink → Answer} {s : Session} {items : List Item} {flushes : Nat}
    (h : Tells f s items flushes) : Steady fun sink => some (f sink) :=
  .inr ⟨s, items, flushes, fun sink hsink => congrArg some (h sink hsink)⟩

namespace Session

variable {s s' s'' : Session} {bound bound' : Nat} {line : String} {ts : List Token} {sink : Sink}
  {a : Answer} {items items' : List Item}

/-- Nothing is written. -/
theorem tells_nothing (s : Session) : Tells (fun sink => ⟨s, sink, none⟩) s [] 0 := by
  intro sink _
  rw [Sink.taking_nil]

theorem tells_report (s : Session) (trouble : Trouble) :
    Tells (s.report trouble) { s with diagnostics := s.diagnostics + 1 }
      [.diagnostic trouble] 0 := by
  intro sink hsink
  rw [report, Sink.write_of_works hsink]

theorem tells_settle (s : Session) : Tells s.settle s [] 1 := by
  intro sink hsink
  rw [settle, Sink.flush_of_works hsink]

/-- The end of a statement tells of its trouble or its value, or of nothing. -/
theorem exists_tells_conclude (s : Session) (result : Except Trouble Flow) :
    ∃ s' items, Tells (s.conclude result) s' items 0 ∧
      ∀ trouble, .diagnostic trouble ∈ items → result = .error trouble := by
  match result with
  | .error trouble =>
    refine ⟨_, _, tells_report s trouble, fun other hother => ?_⟩
    cases List.mem_singleton.1 hother
    rfl
  | .ok .terminate => exact ⟨_, _, tells_nothing _, nofun⟩
  | .ok (.next none) => exact ⟨_, _, tells_nothing s, nofun⟩
  | .ok (.next (some v)) =>
    by_cases hechoes : s.echoes v = true
    · refine ⟨s, [.echoed v], fun sink hsink => ?_, by simp⟩
      rw [conclude, if_pos hechoes, Sink.write_of_works hsink]
    · refine ⟨s, [], fun sink hsink => ?_, nofun⟩
      rw [conclude, if_neg hechoes, Sink.taking_nil]

/-- What the execution of a statement writes, given its evaluation and what its end tells of. -/
theorem execute_of_tells {o : Outcome}
    (hrun : (Statement.ofTokens ts).run s.config.limit bound ⟨s.env, #[]⟩ = some o)
    (htells : Tells (conclude { s with env := o.state.env } o.result) s' items 0)
    (hsink : sink.Works) :
    s.execute bound ts sink = some ⟨s',
      sink.taking (o.state.printed.toList.map .printed ++ items)
        (o.state.printed.toList.length + 1), none⟩ := by
  have hprints : Tells (fun sink => Answer.mk { s with env := o.state.env }
      (sink.emitAll (o.state.printed.toList.map .printed)).1
      (sink.emitAll (o.state.printed.toList.map .printed)).2) { s with env := o.state.env }
      (o.state.printed.toList.map .printed) o.state.printed.toList.length := by
    intro sink hsink
    dsimp only
    rw [Sink.emitAll_of_works hsink, List.length_map]
  have hends := htells.andThen (g := settle) (tells_settle s')
  rw [List.append_nil] at hends
  rw [execute, hrun]
  exact congrArg some (hprints.andThen hends sink hsink)

theorem steady_execute (s : Session) (bound : Nat) (ts : List Token) :
    Steady (s.execute bound ts) := by
  cases hrun : (Statement.ofTokens ts).run s.config.limit bound ⟨s.env, #[]⟩ with
  | none => exact .inl fun sink => by rw [execute, hrun]
  | some o =>
    obtain ⟨s', items, htells, -⟩ := exists_tells_conclude { s with env := o.state.env } o.result
    exact .inr ⟨s', _, _, fun sink hsink => execute_of_tells hrun htells hsink⟩

/-- To report a block and then to end. -/
theorem tells_giveUp (s : Session) (block : PendingBlock) (ending : Session → Ending) :
    Tells (fun sink => (s.report block.complaint sink).andThen fun s sink =>
        ⟨s.endedBy (ending s), sink, none⟩)
      (endedBy { s with diagnostics := s.diagnostics + 1 }
        (ending { s with diagnostics := s.diagnostics + 1 }))
      [.diagnostic block.complaint] 0 :=
  (tells_report s block.complaint).andThen
    (g := fun s sink => ⟨s.endedBy (ending s), sink, none⟩) (tells_nothing _)

/-- **What a session does with a line does not depend on a sink that works.** -/
theorem steady_feedLine (s : Session) (bound : Nat) (line : String) :
    Steady (s.feedLine bound line) := by
  by_cases hended : s.hasEnded = true
  · have hfed : s.feedLine bound line = fun sink => some ⟨s, sink, none⟩ :=
      funext fun sink => feedLine_of_hasEnded hended bound line sink
    rw [hfed]
    exact (tells_nothing s).steady
  rw [Bool.not_eq_true] at hended
  cases hpending : s.pending with
  | none =>
    have hfed : s.feedLine bound line = s.counted.feedStatement bound line _ :=
      funext fun sink => feedLine_of_none hended hpending
    rw [hfed]
    unfold feedStatement
    split
    · exact (tells_nothing _).steady
    split
    · exact (tells_nothing _).steady
    · exact steady_execute _ _ _
  | some block =>
    have hfed : s.feedLine bound line = s.counted.feedBlock bound block line _ :=
      funext fun sink => feedLine_of_some hended hpending
    rw [hfed]
    unfold feedBlock
    dsimp only
    split
    · exact (tells_giveUp _ block fun s => .sentinel s.line).steady
    split
    · exact (tells_nothing _).steady
    · exact steady_execute _ _ _

/-! ## The end of the input -/

/-- What a session writes at the end of the input. -/
def atEnd (s : Session) : List Item := (s.finish .working).sink.accepted.toList

/-- What becomes of a session at the end of the input. -/
def finished (s : Session) : Session := (s.finish .working).session

theorem exists_tells_finish (s : Session) : ∃ s' items, Tells s.finish s' items 0 := by
  by_cases hended : s.hasEnded = true
  · have hfinish : s.finish = fun sink => ⟨s, sink, none⟩ :=
      funext fun sink => finish_of_hasEnded hended sink
    exact ⟨s, [], hfinish ▸ tells_nothing s⟩
  rw [Bool.not_eq_true] at hended
  cases hpending : s.pending with
  | none =>
    have hfinish : s.finish = fun sink => ⟨s.endedBy .endOfInput, sink, none⟩ :=
      funext fun sink => finish_of_none hended hpending
    exact ⟨_, [], hfinish ▸ tells_nothing _⟩
  | some block =>
    have hfinish : s.finish = fun sink => _ :=
      funext fun sink => finish_of_some hended hpending
    exact ⟨_, _, hfinish ▸ tells_giveUp _ block fun _ => .endOfInput⟩

/-- What a session does at the end of the input does not depend on a sink that works either. -/
theorem tells_finish (s : Session) : Tells s.finish s.finished s.atEnd 0 := by
  obtain ⟨s', items, htells⟩ := exists_tells_finish s
  have hworking := htells .working Sink.works_working
  have hitems : s.atEnd = items := by
    rw [atEnd, hworking, Sink.toList_accepted_taking]
    rfl
  rwa [hitems, finished, hworking]

/-! ## Larger bounds -/

theorem execute_mono (hbound : bound ≤ bound') (h : s.execute bound ts sink = some a) :
    s.execute bound' ts sink = some a := by
  obtain ⟨o, hrun, rfl⟩ := execute_eq_some h
  rw [execute, Statement.run_mono hbound hrun]

/-- A larger bound changes no answer. -/
theorem feedLine_mono (hbound : bound ≤ bound') (h : s.feedLine bound line sink = some a) :
    s.feedLine bound' line sink = some a := by
  rw [feedLine_eq_some_iff] at h ⊢
  cases h with
  | ended h => exact .ended h
  | blank h hpending hline => exact .blank h hpending hline
  | opens h hpending hline hblock => exact .opens h hpending hline hblock
  | statement h hpending hline hblock ha =>
    exact .statement h hpending hline hblock (execute_mono hbound ha)
  | givesUp h hpending hline => exact .givesUp h hpending hline
  | goesOn h hpending hline hbalance => exact .goesOn h hpending hline hbalance
  | closes h hpending hline hbalance ha =>
    exact .closes h hpending hline hbalance (execute_mono hbound ha)

/-! ## What is written for a line -/

/-- Fed the line, the session writes the items and becomes `s'`. -/
def Writes (s : Session) (line : String) (items : List Item) (s' : Session) : Prop :=
  ∃ bound flushes, ∀ sink, sink.Works →
    s.feedLine bound line sink = some ⟨s', sink.taking items flushes, none⟩

/-- Whatever a session answers to a sink that works, it writes and becomes. -/
theorem writes_of_feedLine (hsink : sink.Works) (h : s.feedLine bound line sink = some a) :
    ∃ items flushes, a = ⟨a.session, sink.taking items flushes, none⟩ ∧
      s.Writes line items a.session := by
  rcases steady_feedLine s bound line with hnone | ⟨s', items, flushes, htells⟩
  · rw [hnone sink] at h
    cases h
  · have ha := htells sink hsink
    rw [h] at ha
    cases ha
    exact ⟨items, flushes, rfl, bound, flushes, htells⟩

/-- What a session writes for a line is what a new sink accepts. -/
theorem writes_of_working (h : s.feedLine bound line .working = some a) :
    s.Writes line a.sink.accepted.toList a.session := by
  obtain ⟨items, flushes, ha, hline⟩ := writes_of_feedLine Sink.works_working h
  have hitems : a.sink.accepted.toList = items := by
    rw [ha, Sink.toList_accepted_taking]
    rfl
  rwa [hitems]

theorem Writes.unique (h : s.Writes line items s') (h' : s.Writes line items' s'') :
    items' = items ∧ s'' = s' := by
  obtain ⟨bound, flushes, h⟩ := h
  obtain ⟨bound', flushes', h'⟩ := h'
  have h := feedLine_mono (Nat.le_max_left bound bound') (h .working Sink.works_working)
  have h' := feedLine_mono (Nat.le_max_right bound bound') (h' .working Sink.works_working)
  rw [h] at h'
  obtain ⟨hsession, hsink, -⟩ := Answer.mk.inj (Option.some.inj h')
  exact ⟨(Sink.eq_of_taking_eq hsink).symm, hsession.symm⟩

end Session

end DarjaLang
