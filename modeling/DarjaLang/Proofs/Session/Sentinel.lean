import DarjaLang.Proofs.Session.Pending

/-!
# What ends a session

A session ends at a line that says `khlas` and nothing else.  It looks for such a line in two ways:
while it collects a block it looks at the tokens of the line, and otherwise it reads and evaluates
the line.

* `Token.SaysKhlas` describes the lines, and `isSentinelLine_scan_iff` and
  `ofTokens_scan_eq_termination_iff` say that both ways recognise them.
* `execute_of_termination` and `exists_termination_of_execute`: executing a statement ends the
  session exactly if the statement is the sentinel.  The lines of a block are never read as that
  (`ofTokens_ne_termination_of_open`).
* `feedLine_of_sentinel` and `Knows.sentinel_of_hasEnded` are the two directions of the result,
  `ends_iff_khlas`.
-/

set_option autoImplicit false

namespace DarjaLang

open Grammar

namespace Token

/-- The tokens are `khlas` and the end of its line. -/
def SaysKhlas (ts : List Token) : Prop :=
  ∃ t stop, ts = [t, stop] ∧ t.kind = .keyword .khlas ∧ stop.kind = .endOfLine

theorem isTerminator_of_khlas {t : Token} (ht : t.kind = .keyword .khlas) :
    t.isTerminator = false := by
  rw [isTerminator, ht]
  rfl

/-- A line consists of its words and its end. -/
theorem exists_scan_eq_words {line : String} (hline : '\n' ∉ line.toList) (number : Nat) :
    ∃ words stop, scan line number = words ++ [stop] ∧ stop.kind = .endOfLine ∧
      ∀ t ∈ words, t.isTerminator = false :=
  ⟨_, _, scan_of_no_newline hline number, rfl, fun _ ht => (mem_scanLine ht).2⟩

theorem isSentinelLine_cons {t : Token} (ht : t.kind = .keyword .khlas) (rest : List Token) :
    isSentinelLine (t :: rest) = rest.all isTerminator := by
  rw [isSentinelLine, ht]

/-- A line that is recognised as the sentinel starts with `khlas`. -/
theorem exists_cons_of_isSentinelLine {ts : List Token} (h : isSentinelLine ts = true) :
    ∃ t rest, ts = t :: rest ∧ t.kind = .keyword .khlas ∧ ∀ u ∈ rest, u.isTerminator = true := by
  cases ts with
  | nil => cases h
  | cons t rest =>
    have ht : t.kind = .keyword .khlas := by
      rw [isSentinelLine] at h
      split at h
      · assumption
      · cases h
    rw [isSentinelLine_cons ht] at h
    exact ⟨t, rest, rfl, ht, List.all_eq_true.1 h⟩

/-- Behind `khlas`, only the end of the line ends it. -/
theorem isSentinelLine_scan_iff {line : String} (hline : '\n' ∉ line.toList) (number : Nat) :
    isSentinelLine (scan line number) = true ↔ SaysKhlas (scan line number) := by
  obtain ⟨words, stop, hscan, hstop, hwords⟩ := exists_scan_eq_words hline number
  rw [hscan]
  constructor
  · intro h
    obtain ⟨t, rest, hsplit, ht, hrest⟩ := exists_cons_of_isSentinelLine h
    cases words with
    | nil =>
      cases hsplit
      rw [hstop] at ht
      cases ht
    | cons u words =>
      cases hsplit
      cases words with
      | nil => exact ⟨t, stop, rfl, ht, hstop⟩
      | cons v words =>
        have hv := hrest v List.mem_cons_self
        rw [hwords v (List.mem_cons_of_mem t List.mem_cons_self)] at hv
        cases hv
  · rintro ⟨t, end', hsplit, ht, hend⟩
    rw [hsplit, isSentinelLine_cons ht]
    simp [isTerminator, hend, Kind.isTerminator]

end Token

/-! ## Lines that are read as the sentinel -/

theorem beforeInputEnd_scan (text : String) (number : Nat) :
    beforeInputEnd (Token.scan text number) = Token.scan text number := by
  have hin : ∀ t ∈ Token.scan text number, t.kind ≠ .endOfInput :=
    fun t ht => Token.kind_ne_endOfInput_of_mem_scan ht
  have h := beforeInputEnd_append hin .nil
  rwa [List.append_nil] at h

/-- To read a line as the sentinel is to recognise its tokens. -/
theorem ofTokens_scan_eq_termination_iff {line : String} (hline : '\n' ∉ line.toList)
    (number : Nat) :
    (∃ position, Statement.ofTokens (Token.scan line number) = .termination position) ↔
      Token.isSentinelLine (Token.scan line number) = true := by
  constructor
  · rintro ⟨position, h⟩
    obtain ⟨before, t, after, hsplit, hbefore, hafter, ht⟩ := ofTokens_eq_termination h
    obtain ⟨words, stop, hscan, hstop, hwords⟩ := Token.exists_scan_eq_words hline number
    rw [beforeInputEnd_scan] at hsplit
    rw [hsplit]
    cases before with
    | nil =>
      rw [List.nil_append, Token.isSentinelLine_cons ht, List.all_eq_true]
      intro u hu
      rw [Token.isTerminator, hafter u hu]
      rfl
    | cons u before =>
      -- A line does not start with its end, unless it is blank.
      exfalso
      have hu := hbefore u List.mem_cons_self
      rw [hscan] at hsplit
      cases words with
      | nil => simp at hsplit
      | cons w words =>
        obtain ⟨rfl, -⟩ := List.cons.inj hsplit
        have hw := hwords w List.mem_cons_self
        rw [Token.isTerminator, hu] at hw
        cases hw
  · intro h
    obtain ⟨t, stop, hscan, ht, hstop⟩ := (Token.isSentinelLine_scan_iff hline number).1 h
    have hsplit : beforeInputEnd (Token.scan line number) = [] ++ [t] ++ [stop] := by
      rw [beforeInputEnd_scan, hscan]
      rfl
    have hends : LineEnds [stop] := fun u hu => by rw [List.mem_singleton.1 hu, hstop]
    have hread := (IsLine.sentinel ht).ofTokens? hsplit .nil hends
    exact ⟨_, (ofTokens_valid_iff.2 hread).1⟩

/-- A text that goes on behind an open brace is not read as the sentinel. -/
theorem ofTokens_ne_termination_of_open {text : String} {number : Nat}
    (hopen : 0 < Token.balance (Token.scan text number)) (behind : String) (position : Position) :
    Statement.ofTokens (Token.scan (text ++ "\n" ++ behind) number) ≠ .termination position := by
  intro h
  obtain ⟨opening, hopening⟩ := Option.isSome_iff_exists.1 (Token.outermostOpen?_isSome hopen)
  obtain ⟨o, ho, hbrace, -⟩ := Token.mem_openBraces (List.mem_of_getLast? hopening)
  have hmem := Token.mem_scan_append_newline ho (by rw [hbrace]; nofun) behind
  obtain ⟨before, t, after, hsplit, hbefore, hafter, ht⟩ := ofTokens_eq_termination h
  rw [← beforeInputEnd_scan, hsplit] at hmem
  rcases List.mem_append.1 hmem with hmem | hmem
  · simp [hbefore o hmem] at hbrace
  rcases List.mem_cons.1 hmem with rfl | hmem
  · simp [ht] at hbrace
  · simp [hafter o hmem] at hbrace

namespace Session

variable {config : Configuration} {lines : List String} {s : Session} {bound : Nat} {line : String}
  {sink : Sink} {a : Answer} {ts : List Token} {position : Position}

/-! ## What is executed -/

theorem andThen_settle_session (a : Answer) : (a.andThen settle).session = a.session := by
  rw [Answer.andThen]
  split <;> rfl

/-- To execute the sentinel is to end the session, whatever the sink does. -/
theorem execute_of_termination (s : Session) (bound : Nat) (sink : Sink)
    (h : Statement.ofTokens ts = .termination position) :
    ∃ a, s.execute bound ts sink = some a ∧ a.session.ending = some (.sentinel s.line) := by
  rw [execute, h, Statement.run]
  exact ⟨_, rfl, by rw [Answer.andThen, andThen_settle_session]; rfl⟩

theorem eq_terminate_of_conclude {result : Except Trouble Flow} (hrunning : s.hasEnded = false)
    (hended : (s.conclude result sink).session.hasEnded = true) : result = .ok .terminate := by
  have hrunning := ne_true_of_eq_false hrunning
  rw [conclude.eq_def] at hended
  split at hended
  · exact absurd hended hrunning
  · rfl
  · exact absurd hended hrunning
  · split at hended <;> exact absurd hended hrunning

/-- No other statement ends a session. -/
theorem exists_termination_of_execute (hrunning : s.hasEnded = false)
    (ha : s.execute bound ts sink = some a) (hended : a.session.hasEnded = true) :
    ∃ position, Statement.ofTokens ts = .termination position := by
  obtain ⟨⟨result, state⟩, hrun, rfl⟩ := execute_eq_some ha
  rw [Answer.andThen] at hended
  split at hended
  · exact absurd hended (ne_true_of_eq_false hrunning)
  · rw [andThen_settle_session] at hended
    have hresult : result = .ok .terminate :=
      eq_terminate_of_conclude (s := { s with env := state.env }) hrunning hended
    cases hresult
    exact Statement.exists_termination_of_run hrun

/-! ## What ends a session -/

/-- A line that is recognised as the sentinel ends a session. -/
theorem feedLine_of_sentinel (hrunning : s.hasEnded = false) (hline : '\n' ∉ line.toList)
    (hsink : sink.writeFate sink.writes = none)
    (hsentinel : Token.isSentinelLine (Token.scan line (s.line + 1)) = true) (bound : Nat) :
    ∃ a, s.feedLine bound line sink = some a ∧
      a.session.ending = some (.sentinel (s.line + 1)) := by
  cases hpending : s.pending with
  | some block =>
    refine ⟨_, feedLine_eq_some_iff.2 (.givesUp hrunning hpending hsentinel), ?_⟩
    rw [Answer.andThen, (report_accepted block.complaint hsink).2]
    rfl
  | none =>
    obtain ⟨position, hread⟩ := (ofTokens_scan_eq_termination_iff hline _).2 hsentinel
    have hblank : (Token.scan line (s.line + 1)).all Token.isTerminator = false := by
      obtain ⟨t, rest, hsplit, ht, -⟩ := Token.exists_cons_of_isSentinelLine hsentinel
      rw [hsplit, List.all_cons, Token.isTerminator_of_khlas ht, Bool.false_and]
    have hblock : PendingBlock.ofLine? line (s.line + 1) (Token.scan line (s.line + 1)) = none := by
      rw [PendingBlock.ofLine?, ofTokens_valid_iff.1 ⟨hread, fun _ h => by cases h⟩]
    obtain ⟨a, ha, hending⟩ := execute_of_termination s.counted bound sink hread
    exact ⟨a, feedLine_eq_some_iff.2 (.statement hrunning hpending hblank hblock ha), hending⟩

/-- No other line ends a session. -/
theorem Knows.sentinel_of_hasEnded (hknows : Knows lines s) (hrunning : s.hasEnded = false)
    (hline : '\n' ∉ line.toList) (ha : s.feedLine bound line sink = some a)
    (hended : a.session.hasEnded = true) :
    Token.isSentinelLine (Token.scan line (s.line + 1)) = true := by
  cases feedLine_eq_some_iff.1 ha with
  | ended h => exact absurd h (ne_true_of_eq_false hrunning)
  | blank h => exact absurd hended (ne_true_of_eq_false h)
  | opens h => exact absurd hended (ne_true_of_eq_false h)
  | goesOn h => exact absurd hended (ne_true_of_eq_false h)
  | givesUp _ _ hsentinel => exact hsentinel
  | statement h _ _ _ hrun =>
    have hrunning : s.counted.hasEnded = false := h
    exact (ofTokens_scan_eq_termination_iff hline _).1
      (exists_termination_of_execute hrunning hrun hended)
  | @closes block _ h hpending _ _ hrun =>
    have hrunning : (s.counted.collecting none).hasEnded = false := h
    obtain ⟨position, hread⟩ := exists_termination_of_execute hrunning hrun hended
    obtain ⟨-, _, _, _, -, hcollects⟩ := hknows.pending block hpending
    have hopen := hcollects.positive
    rw [hcollects.balance_tokens] at hopen
    exact absurd hread (ofTokens_ne_termination_of_open hopen line position)

/-- **A session ends exactly at the lines that say `khlas` and nothing else**, whether it is
collecting a block or not, and it always does end there.  The sink must only accept the report of a
block that is given up.  Nothing inside a statement is the sentinel, or stands for a line that could
not be read, so the evaluation of no other statement ends the program. -/
theorem ends_iff_khlas (h : Called config lines s) (hrunning : s.hasEnded = false)
    (hline : '\n' ∉ line.toList) (hsink : sink.writeFate sink.writes = none) :
    (∀ bound a, s.feedLine bound line sink = some a →
      (a.session.hasEnded = true ↔ Token.SaysKhlas (Token.scan line (s.line + 1))) ∧
      (a.session.hasEnded = true →
        a.session.ending = some (.sentinel (lines ++ [line]).length))) ∧
    (Token.SaysKhlas (Token.scan line (s.line + 1)) →
      ∀ bound, ∃ a, s.feedLine bound line sink = some a) ∧
    ∀ ts : List Token,
      (∀ inner, Statement.Inside inner (Statement.ofTokens ts) →
        inner.IsValid ∧ ∀ position, inner ≠ .termination position) ∧
      ∀ (limit : Option UInt64) (bound : Nat) (state state' : State),
        (Statement.ofTokens ts).run limit bound state = some ⟨.ok .terminate, state'⟩ →
        ∃ position, Statement.ofTokens ts = .termination position := by
  have hknows := h.reached.knows
  have hends := feedLine_of_sentinel hrunning hline hsink
  rw [← Token.isSentinelLine_scan_iff hline]
  refine ⟨fun bound a ha => ?_, fun hsentinel bound => ?_, fun ts =>
    ⟨fun inner => ofTokens_inside, fun _ _ _ _ => Statement.exists_termination_of_run⟩⟩
  · have hsentinel := hknows.sentinel_of_hasEnded hrunning hline ha
    have hending : Token.isSentinelLine (Token.scan line (s.line + 1)) = true →
        a.session.ending = some (.sentinel (s.line + 1)) := by
      intro hkhlas
      obtain ⟨a', ha', hending⟩ := hends hkhlas bound
      cases Option.some.inj (ha.symm.trans ha')
      exact hending
    refine ⟨⟨hsentinel, fun hkhlas => ?_⟩, fun hended => ?_⟩
    · rw [hasEnded, hending hkhlas, Option.isSome_some]
    · rw [hending (hsentinel hended), hknows.line hrunning, List.length_append,
        List.length_singleton]
  · obtain ⟨a, ha, -⟩ := hends hsentinel bound
    exact ⟨a, ha⟩

/-- A loop is being collected.  Nothing but `khlas` ends the session, not even a line that closes
the loop behind it. -/
theorem ends_iff_khlas_in_loop :
    ∃ s, Called ⟨true, none⟩ ["mazal sah \x7b"] s ∧ s.hasEnded = false ∧ s.awaitsBlock = true ∧
      '\n' ∉ "khlas \x7d".toList ∧ '\n' ∉ "  khlas".toList ∧
      Sink.working.writeFate Sink.working.writes = none ∧
      (∀ bound a, s.feedLine bound "khlas \x7d" .working = some a → a.session.hasEnded ≠ true) ∧
      ∀ bound, ∃ a, s.feedLine bound "  khlas" .working = some a ∧
        a.session.ending = some (.sentinel 2) := by
  have hfed : (start ⟨true, none⟩).feedLine 0 "mazal sah \x7b" .working =
      some ⟨⟨⟨true, none⟩, .empty, 1, 0, some ⟨"mazal sah \x7b", 1, ⟨1, 11⟩, 1⟩, none⟩,
        .working, none⟩ := by cbv
  have hcalled : Called ⟨true, none⟩ ["mazal sah \x7b"] _ := Called.start.feedLine hfed
  have hclosing : '\n' ∉ "khlas \x7d".toList := by decide
  have hspaced : '\n' ∉ "  khlas".toList := by decide
  have hsink : Sink.working.writeFate Sink.working.writes = none := rfl
  obtain ⟨hiff, -, -⟩ := ends_iff_khlas hcalled rfl hclosing hsink
  obtain ⟨hiff', hreturns, -⟩ := ends_iff_khlas hcalled rfl hspaced hsink
  have hkhlas : Token.SaysKhlas (Token.scan "  khlas" 2) := ⟨_, _, rfl, rfl, rfl⟩
  refine ⟨_, hcalled, rfl, rfl, hclosing, hspaced, hsink, fun bound a ha hended => ?_,
    fun bound => ?_⟩
  · obtain ⟨_, _, hscan, -, -⟩ := (hiff bound a ha).1.1 hended
    cases hscan
  · obtain ⟨a, ha⟩ := hreturns hkhlas bound
    exact ⟨a, ha, (hiff' bound a ha).2 ((hiff' bound a ha).1.2 hkhlas)⟩

end Session

end DarjaLang
