import DarjaLang.Session.Basic

/-!
# What a step of a session does

* `Session.Fed s bound line sink a` lists what a session can do with a line: nothing, once it has
  ended; start, extend, close or give up a block; or take the line for a statement.
  `feedLine_eq_some_iff` says that this is all.
* `Session.SamePlace` is what evaluating a statement leaves alone (`execute_samePlace`).
* `Session.execute_change`: a statement has the same effect on a session that has been changed where
  neither the evaluation nor what becomes of its end looks.
* `Session.Request` are the ways to call a session, and `Session.answer` is what it answers.
-/

set_option autoImplicit false

namespace DarjaLang

namespace Session

variable {s s' : Session} {bound : Nat} {line : String} {sink : Sink} {a : Answer}

/-! ## What is left alone -/

/-- The same configuration, the same number of lines and the same block. -/
structure SamePlace (s s' : Session) : Prop where
  config : s'.config = s.config
  line : s'.line = s.line
  pending : s'.pending = s.pending

theorem SamePlace.rfl : SamePlace s s := ⟨.refl _, .refl _, .refl _⟩

theorem SamePlace.trans {s'' : Session} (h : SamePlace s s') (h' : SamePlace s' s'') :
    SamePlace s s'' :=
  ⟨h'.config.trans h.config, h'.line.trans h.line, h'.pending.trans h.pending⟩

theorem endedBy_samePlace (ending : Ending) : SamePlace s (s.endedBy ending) :=
  ⟨rfl, rfl, rfl⟩

theorem report_samePlace (trouble : Trouble) : SamePlace s (s.report trouble sink).session :=
  ⟨rfl, rfl, rfl⟩

theorem conclude_samePlace (result : Except Trouble Flow) :
    SamePlace s (s.conclude result sink).session := by
  rw [conclude.eq_def]
  split
  · exact report_samePlace _
  · exact endedBy_samePlace _
  · exact .rfl
  · split <;> exact .rfl

theorem settle_samePlace : SamePlace s (s.settle sink).session := ⟨rfl, rfl, rfl⟩

end Session

/-- What two steps leave alone, one behind the other leaves alone. -/
theorem Answer.andThen_samePlace {s : Session} {a : Answer} {f : Session → Sink → Answer}
    (ha : Session.SamePlace s a.session)
    (hf : ∀ sink, Session.SamePlace a.session (f a.session sink).session) :
    Session.SamePlace s (a.andThen f).session := by
  rw [Answer.andThen]
  split
  · exact ha
  · exact ha.trans (hf a.sink)

namespace Session

variable {s s' : Session} {bound : Nat} {line : String} {sink : Sink} {a : Answer}

/-- Evaluating a statement neither counts a line nor touches a block. -/
theorem execute_samePlace {ts : List Token} (h : s.execute bound ts sink = some a) :
    SamePlace s a.session := by
  rw [execute] at h
  split at h
  · cases h
  · cases h
    refine Answer.andThen_samePlace ⟨rfl, rfl, rfl⟩ fun sink => ?_
    exact Answer.andThen_samePlace (conclude_samePlace _) fun sink => settle_samePlace

/-! ## What becomes of an evaluation -/

/-- What a session makes of an evaluation that has ended. -/
def wrapUp (s : Session) (sink : Sink) (o : Outcome) : Answer :=
  let s := { s with env := o.state.env }
  let (sink, failure) := sink.emitAll (o.state.printed.toList.map .printed)
  (Answer.mk s sink failure).andThen fun s sink => (s.conclude o.result sink).andThen settle

theorem execute_eq_map_wrapUp (s : Session) (bound : Nat) (ts : List Token) (sink : Sink) :
    s.execute bound ts sink =
      ((Statement.ofTokens ts).run s.config.limit bound ⟨s.env, #[]⟩).map (s.wrapUp sink) := by
  rw [execute]
  rcases (Statement.ofTokens ts).run s.config.limit bound ⟨s.env, #[]⟩ with
    _ | ⟨result, env, printed⟩ <;> rfl

end Session

namespace Answer

/-- The answer of a changed session, which writes to a changed sink. -/
def change (φ : Session → Session) (ψ : Sink → Sink) (a : Answer) : Answer :=
  ⟨φ a.session, ψ a.sink, a.failure⟩

/-- Two steps, one behind the other, are changed one by one. -/
theorem andThen_change (φ : Session → Session) (ψ : Sink → Sink) {a : Answer}
    {f g : Session → Sink → Answer}
    (hfg : g (φ a.session) (ψ a.sink) = (f a.session a.sink).change φ ψ) :
    (a.change φ ψ).andThen g = (a.andThen f).change φ ψ := by
  obtain ⟨s, sink, failure⟩ := a
  cases failure with
  | none => exact hfg
  | some e => rfl

end Answer

namespace Session

variable {s s' : Session} {bound : Nat} {line : String} {sink : Sink} {a : Answer}

/-- A statement has the same effect on a changed session, if it comes to the same end there. -/
theorem execute_change (φ : Session → Session) {ts : List Token}
    (hlimit : (φ s).config.limit = s.config.limit) (henv : (φ s).env = s.env)
    (hassign : ∀ env, { φ s with env := env } = φ { s with env := env })
    (hconclude : ∀ o, (Statement.ofTokens ts).run s.config.limit bound ⟨s.env, #[]⟩ = some o →
      ∀ env sink, (φ { s with env := env }).conclude o.result sink =
        ({ s with env := env }.conclude o.result sink).change φ id) :
    (φ s).execute bound ts sink = (s.execute bound ts sink).map (·.change φ id) := by
  rw [execute_eq_map_wrapUp, execute_eq_map_wrapUp, hlimit, henv, Option.map_map]
  refine Option.map_congr fun o ho => ?_
  rw [Function.comp_apply, wrapUp, wrapUp, hassign]
  obtain ⟨sink', failure⟩ := sink.emitAll (o.state.printed.toList.map .printed)
  dsimp only
  refine Answer.andThen_change φ id (a := ⟨{ s with env := o.state.env }, sink', failure⟩) ?_
  rw [id, hconclude o ho]
  exact Answer.andThen_change φ id rfl

/-! ## Taking a line -/

/-- The session after a line has been counted. -/
def counted (s : Session) : Session := { s with line := s.line + 1 }

@[simp] theorem counted_line (s : Session) : s.counted.line = s.line + 1 := rfl

/-- The session when it collects a block, or stops collecting one. -/
def collecting (s : Session) (pending : Option PendingBlock) : Session :=
  { s with pending := pending }

/-- While no block is being collected, a line is a statement or starts a block. -/
theorem feedLine_of_none (h : s.hasEnded = false) (hpending : s.pending = none) :
    s.feedLine bound line sink =
      s.counted.feedStatement bound line (Token.scan line (s.line + 1)) sink := by
  cases s with
  | mk config env number diagnostics pending ending =>
    cases hpending
    exact if_neg (ne_true_of_eq_false h)

/-- While a block is being collected, a line belongs to it. -/
theorem feedLine_of_some {block : PendingBlock} (h : s.hasEnded = false)
    (hpending : s.pending = some block) :
    s.feedLine bound line sink =
      s.counted.feedBlock bound block line (Token.scan line (s.line + 1)) sink := by
  cases s with
  | mk config env number diagnostics pending ending =>
    cases hpending
    exact if_neg (ne_true_of_eq_false h)

/-- A line that is a statement is executed. -/
theorem feedLine_of_statement (h : s.hasEnded = false) (hpending : s.pending = none)
    (hline : (Token.scan line (s.line + 1)).all Token.isTerminator = false)
    (hblock : PendingBlock.ofLine? line (s.line + 1) (Token.scan line (s.line + 1)) = none) :
    s.feedLine bound line sink = s.counted.execute bound (Token.scan line (s.line + 1)) sink := by
  rw [feedLine_of_none h hpending, feedStatement, if_neg (ne_true_of_eq_false hline),
    counted_line, hblock]

/-- A line that closes a block has the block executed. -/
theorem feedLine_of_closes {block : PendingBlock} (h : s.hasEnded = false)
    (hpending : s.pending = some block)
    (hline : Token.isSentinelLine (Token.scan line (s.line + 1)) = false)
    (hbalance : block.balance + Token.balance (Token.scan line (s.line + 1)) ≤ 0) :
    s.feedLine bound line sink = (s.counted.collecting none).execute bound
      (block.extend line (Token.balance (Token.scan line (s.line + 1)))).tokens sink := by
  rw [feedLine_of_some h hpending, feedBlock, if_neg (ne_true_of_eq_false hline)]
  exact if_neg (Int.not_lt.2 hbalance)

/-- At the end of the input, a session that collects no block just ends. -/
theorem finish_of_none (h : s.hasEnded = false) (hpending : s.pending = none) :
    s.finish sink = ⟨s.endedBy .endOfInput, sink, none⟩ := by
  cases s with
  | mk config env number diagnostics pending ending =>
    cases hpending
    exact if_neg (ne_true_of_eq_false h)

/-- At the end of the input, a block that is being collected is given up. -/
theorem finish_of_some {block : PendingBlock} (h : s.hasEnded = false)
    (hpending : s.pending = some block) :
    s.finish sink = ((s.collecting none).report block.complaint sink).andThen
      fun s sink => ⟨s.endedBy .endOfInput, sink, none⟩ := by
  cases s with
  | mk config env number diagnostics pending ending =>
    cases hpending
    exact if_neg (ne_true_of_eq_false h)

/-- What a session can do with a line. -/
inductive Fed (s : Session) (bound : Nat) (line : String) (sink : Sink) : Answer → Prop
  | ended (h : s.hasEnded = true) : Fed s bound line sink ⟨s, sink, none⟩
  /-- A line without a statement. -/
  | blank (h : s.hasEnded = false) (hpending : s.pending = none)
      (hline : (Token.scan line (s.line + 1)).all Token.isTerminator = true) :
      Fed s bound line sink ⟨s.counted, sink, none⟩
  /-- A line that starts a block. -/
  | opens {block : PendingBlock} (h : s.hasEnded = false) (hpending : s.pending = none)
      (hline : (Token.scan line (s.line + 1)).all Token.isTerminator = false)
      (hblock : PendingBlock.ofLine? line (s.line + 1) (Token.scan line (s.line + 1)) =
        some block) :
      Fed s bound line sink ⟨s.counted.collecting (some block), sink, none⟩
  /-- A line that is a statement. -/
  | statement {a : Answer} (h : s.hasEnded = false) (hpending : s.pending = none)
      (hline : (Token.scan line (s.line + 1)).all Token.isTerminator = false)
      (hblock : PendingBlock.ofLine? line (s.line + 1) (Token.scan line (s.line + 1)) = none)
      (ha : s.counted.execute bound (Token.scan line (s.line + 1)) sink = some a) :
      Fed s bound line sink a
  /-- A sentinel line gives a block up. -/
  | givesUp {block : PendingBlock} (h : s.hasEnded = false) (hpending : s.pending = some block)
      (hline : Token.isSentinelLine (Token.scan line (s.line + 1)) = true) :
      Fed s bound line sink (((s.counted.collecting none).report block.complaint sink).andThen
        fun s sink => ⟨s.endedBy (.sentinel s.line), sink, none⟩)
  /-- A line that leaves a block open. -/
  | goesOn {block : PendingBlock} (h : s.hasEnded = false) (hpending : s.pending = some block)
      (hline : Token.isSentinelLine (Token.scan line (s.line + 1)) = false)
      (hbalance : 0 < block.balance + Token.balance (Token.scan line (s.line + 1))) :
      Fed s bound line sink ⟨s.counted.collecting
        (some (block.extend line (Token.balance (Token.scan line (s.line + 1))))), sink, none⟩
  /-- A line that closes a block. -/
  | closes {block : PendingBlock} {a : Answer} (h : s.hasEnded = false)
      (hpending : s.pending = some block)
      (hline : Token.isSentinelLine (Token.scan line (s.line + 1)) = false)
      (hbalance : block.balance + Token.balance (Token.scan line (s.line + 1)) ≤ 0)
      (ha : (s.counted.collecting none).execute bound
        (block.extend line (Token.balance (Token.scan line (s.line + 1)))).tokens sink = some a) :
      Fed s bound line sink a

/-- These are all the things a session does with a line. -/
theorem feedLine_eq_some_iff : s.feedLine bound line sink = some a ↔ Fed s bound line sink a := by
  constructor
  · intro h
    by_cases hended : s.hasEnded = true
    · rw [feedLine_of_hasEnded hended] at h
      cases h
      exact .ended hended
    rw [Bool.not_eq_true] at hended
    cases hpending : s.pending with
    | none =>
      rw [feedLine_of_none hended hpending, feedStatement] at h
      split at h
      · next hline => cases h; exact .blank hended hpending hline
      next hline =>
      rw [Bool.not_eq_true] at hline
      split at h
      · next block hblock => cases h; exact .opens hended hpending hline hblock
      · next hblock => exact .statement hended hpending hline hblock h
    | some block =>
      rw [feedLine_of_some hended hpending, feedBlock] at h
      dsimp only at h
      split at h
      · next hline => cases h; exact .givesUp hended hpending hline
      next hline =>
      rw [Bool.not_eq_true] at hline
      split at h
      · next hbalance => cases h; exact .goesOn hended hpending hline hbalance
      · next hbalance => exact .closes hended hpending hline (Int.not_lt.1 hbalance) h
  · intro h
    cases h with
    | ended h => exact feedLine_of_hasEnded h bound line sink
    | blank h hpending hline =>
      rw [feedLine_of_none h hpending, feedStatement, if_pos hline]
    | opens h hpending hline hblock =>
      rw [feedLine_of_none h hpending, feedStatement, if_neg (ne_true_of_eq_false hline),
        counted_line, hblock]
      rfl
    | statement h hpending hline hblock ha =>
      exact (feedLine_of_statement h hpending hline hblock).trans ha
    | givesUp h hpending hline =>
      rw [feedLine_of_some h hpending, feedBlock]
      exact if_pos hline
    | goesOn h hpending hline hbalance =>
      rw [feedLine_of_some h hpending, feedBlock, if_neg (ne_true_of_eq_false hline)]
      exact if_pos hbalance
    | closes h hpending hline hbalance ha =>
      exact (feedLine_of_closes h hpending hline hbalance).trans ha

/-- Only a line that starts a block has a session collect one afterwards. -/
theorem Fed.ofLine?_of_awaitsBlock (h : Fed s bound line sink a)
    (hrunning : s.hasEnded = false) (hpending : s.pending = none)
    (hawaits : a.session.awaitsBlock = true) :
    (Token.scan line (s.line + 1)).all Token.isTerminator = false ∧
      ∃ block, PendingBlock.ofLine? line (s.line + 1) (Token.scan line (s.line + 1)) =
        some block := by
  have hidle : ∀ s' : Session, a.session.pending = s'.pending → s'.pending = none → False := by
    intro s' heq hnone
    rw [awaitsBlock, heq, hnone] at hawaits
    cases hawaits
  cases h with
  | ended hended => exact absurd hended (ne_true_of_eq_false hrunning)
  | blank => exact (hidle s rfl hpending).elim
  | opens _ _ hline hblock => exact ⟨hline, _, hblock⟩
  | statement _ _ _ _ ha => exact (hidle _ (execute_samePlace ha).pending hpending).elim
  | givesUp _ hsome => rw [hpending] at hsome; cases hsome
  | goesOn _ hsome => rw [hpending] at hsome; cases hsome
  | closes _ hsome => rw [hpending] at hsome; cases hsome

/-! ## Calls -/

/-- A call of a session. -/
inductive Request
  | line (text : String)
  | lines (input : List (Except StreamError String))
  | finish

/-- What a session answers to a call. -/
def answer (s : Session) (bound : Nat) (sink : Sink) : Request → Option Answer
  | .line text => s.feedLine bound text sink
  | .lines input => (s.feedAll bound input sink).map Prod.fst
  | .finish => some (s.finish sink)

end Session

end DarjaLang
