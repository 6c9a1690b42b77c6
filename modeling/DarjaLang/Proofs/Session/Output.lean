import DarjaLang.Proofs.Session.Step

/-!
# What reaches a sink

* `Sink.Accepts P sink sink'` says that `sink'` is `sink` after it has accepted some further items,
  all of them with the property `P`.  What is accepted stays accepted, so steps compose.
* `Session.execute_eq_some` takes the execution of a statement apart, and
  `Session.execute_accepts` says what it writes: lines, a value, and the trouble that the statement
  has come to.
* `Session.accepts_finish` and `Session.accepts_feedAll` say what is written at the end of the input
  and for a whole input.
-/

set_option autoImplicit false

namespace DarjaLang

namespace Sink

variable {P : Item → Prop} {sink sink' sink'' : Sink} {item : Item}

/-! ## What a sink accepts -/

/-- The sink has accepted further items with a property. -/
def Accepts (P : Item → Prop) (sink sink' : Sink) : Prop :=
  ∃ new : Array Item, sink'.accepted = sink.accepted ++ new ∧ ∀ item ∈ new, P item

theorem Accepts.of_eq (h : sink'.accepted = sink.accepted) : Accepts P sink sink' :=
  ⟨#[], by rw [h, Array.append_empty], nofun⟩

theorem Accepts.rfl : Accepts P sink sink := .of_eq (.refl _)

theorem Accepts.trans (h : Accepts P sink sink') (h' : Accepts P sink' sink'') :
    Accepts P sink sink'' := by
  obtain ⟨new, hnew, hP⟩ := h
  obtain ⟨more, hmore, hP'⟩ := h'
  refine ⟨new ++ more, by rw [hmore, hnew, Array.append_assoc], fun item hitem => ?_⟩
  exact (Array.mem_append.1 hitem).elim (hP item) (hP' item)

theorem accepts_write (sink : Sink) (h : P item) : Accepts P sink (sink.write item).1 := by
  dsimp only [write]
  split
  · exact ⟨#[item], Array.push_eq_append, fun other hother => by
      rw [Array.mem_singleton.1 hother]
      exact h⟩
  · exact .rfl

theorem accepts_flush : Accepts P sink sink.flush.1 := .of_eq rfl

theorem accepts_emit (sink : Sink) (h : P item) : Accepts P sink (sink.emit item).1 := by
  have hwrite := accepts_write sink h
  rw [emit]
  split
  · next hwritten =>
    rw [hwritten] at hwrite
    exact hwrite.trans accepts_flush
  · exact hwrite

theorem accepts_emitAll {items : List Item} (h : ∀ item ∈ items, P item) :
    Accepts P sink (sink.emitAll items).1 := by
  induction items generalizing sink with
  | nil => exact .rfl
  | cons item items ih =>
    have hemit := accepts_emit sink (h item List.mem_cons_self)
    rw [emitAll]
    split
    · next hemitted =>
      rw [hemitted] at hemit
      exact hemit.trans (ih fun other hother => h other (List.mem_cons_of_mem item hother))
    · exact hemit

end Sink

/-- What two steps accept, one behind the other accepts. -/
theorem Answer.andThen_accepts {P : Item → Prop} {sink : Sink} {a : Answer}
    {f : Session → Sink → Answer} (ha : Sink.Accepts P sink a.sink)
    (hf : ∀ s sink, Sink.Accepts P sink (f s sink).sink) :
    Sink.Accepts P sink (a.andThen f).sink := by
  rw [Answer.andThen]
  split
  · exact ha
  · exact ha.trans (hf a.session a.sink)

namespace Session

variable {s : Session} {bound : Nat} {ts : List Token} {sink : Sink} {a : Answer}

/-! ## Reports -/

theorem report_accepted (trouble : Trouble) (hsink : sink.writeFate sink.writes = none) :
    (s.report trouble sink).sink.accepted = sink.accepted.push (.diagnostic trouble) ∧
      (s.report trouble sink).failure = none := by
  rw [report]
  dsimp only [Sink.write]
  rw [hsink]
  exact ⟨rfl, rfl⟩

/-! ## The execution of a statement -/

/-- The statement is evaluated, its lines are written, and then its end is acted on. -/
theorem execute_eq_some (h : s.execute bound ts sink = some a) :
    ∃ o : Outcome, (Statement.ofTokens ts).run s.config.limit bound ⟨s.env, #[]⟩ = some o ∧
      a = (Answer.mk { s with env := o.state.env }
        (sink.emitAll (o.state.printed.toList.map .printed)).1
        (sink.emitAll (o.state.printed.toList.map .printed)).2).andThen fun s sink =>
          (s.conclude o.result sink).andThen settle := by
  rw [execute_eq_map_wrapUp, Option.map_eq_some_iff] at h
  obtain ⟨o, hrun, rfl⟩ := h
  exact ⟨o, hrun, rfl⟩

/-- What the execution of a statement writes: the lines it prints, its value, and its trouble. -/
theorem execute_accepts {P : Item → Prop} (hprinted : ∀ line, P (.printed line))
    (hechoed : ∀ v, P (.echoed v))
    (htrouble : ∀ o : Outcome,
      (Statement.ofTokens ts).run s.config.limit bound ⟨s.env, #[]⟩ = some o →
      ∀ trouble, o.result = .error trouble → P (.diagnostic trouble))
    (h : s.execute bound ts sink = some a) : Sink.Accepts P sink a.sink := by
  obtain ⟨o, hrun, rfl⟩ := execute_eq_some h
  refine Answer.andThen_accepts (Sink.accepts_emitAll fun item hitem => ?_) fun s sink => ?_
  · obtain ⟨line, -, rfl⟩ := List.mem_map.1 hitem
    exact hprinted line
  refine Answer.andThen_accepts ?_ fun s sink => Sink.accepts_flush
  rw [conclude.eq_def]
  split
  · next trouble hresult => exact Sink.accepts_write _ (htrouble o hrun trouble hresult)
  · exact .rfl
  · exact .rfl
  · split
    · exact Sink.accepts_write _ (hechoed _)
    · exact .rfl

/-! ## Inputs -/

/-- What a session writes at the end of the input: that a block was never closed. -/
theorem accepts_finish {P : Item → Prop} (s : Session) (sink : Sink)
    (hcomplaint : ∀ block, s.pending = some block → P (.diagnostic block.complaint)) :
    sink.Accepts P (s.finish sink).sink := by
  by_cases hended : s.hasEnded = true
  · rw [finish_of_hasEnded hended]
    exact .rfl
  rw [finish, if_neg hended]
  refine Answer.andThen_accepts ?_ fun _ _ => .rfl
  split
  · next hpending => exact Sink.accepts_write _ (hcomplaint _ hpending)
  · exact .rfl

/-- For a whole input, a session writes what it writes for lines and for the end of the input. -/
theorem accepts_feedAll {P : Item → Prop}
    (hline : ∀ (s : Session) (line : String) (sink : Sink) (a : Answer),
      s.feedLine bound line sink = some a → sink.Accepts P a.sink)
    (hend : ∀ (s : Session) (sink : Sink), sink.Accepts P (s.finish sink).sink)
    {input : List (Except StreamError String)} {looked : Nat}
    (h : s.feedAll bound input sink = some (a, looked)) : sink.Accepts P a.sink := by
  induction input generalizing s sink looked with
  | nil =>
    cases h
    exact hend s sink
  | cons next rest ih =>
    cases next with
    | error e =>
      cases h
      exact .rfl
    | ok line =>
      rw [feedAll] at h
      split at h
      · cases h
      next fed hfed =>
      have hfirst := hline s line sink fed hfed
      split at h
      · cases h
        exact hfirst
      · obtain ⟨⟨last, more⟩, hrest, hlast⟩ := Option.map_eq_some_iff.1 h
        cases hlast
        exact hfirst.trans (ih hrest)

end Session

end DarjaLang
