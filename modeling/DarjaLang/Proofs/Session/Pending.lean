import DarjaLang.Proofs.Evaluation.Line
import DarjaLang.Proofs.Session.BlockStart
import DarjaLang.Proofs.Session.Output
import DarjaLang.Proofs.Session.Reached
import DarjaLang.Proofs.Token.Lines

/-!
# The block that a session collects

A session adds up the braces of a block line by line, but in the end it reads all the lines
together.  Both views agree, whatever the lines are: a newline cuts a text in two.

* `balance_scan_intercalate`: lines that are joined have the braces of the lines.
* `balance_pos_of_unterminated`: a text whose fault is an open block opens more braces than it
  closes.
* `Session.Executes s line ts` says that a session that is fed the line takes the tokens `ts` for a
  statement: those of the line, or those of the block that the line closes.  `feedLine_cases` says
  what else there is: the line gives a block up, or nothing is written.
* `pending_block_invariant` is the result.  What is executed never lacks the end of a block, so only
  a block that is given up is reported as never closed.
-/

set_option autoImplicit false

namespace DarjaLang

open Grammar

namespace Token

/-- Lines that are joined have the braces of the lines. -/
theorem balance_scan_intercalate (first : String) (more : List String) (line : Nat) :
    balance (scan ("\n".intercalate (first :: more)) line) =
      balance (ofLines line (first :: more)) := by
  induction more generalizing first line with
  | nil => rw [String.intercalate_singleton, ofLines, ofLines, List.append_nil]
  | cons next more ih =>
    rw [String.intercalate_cons_cons, balance_scan_append_newline first _ line (line + 1), ih,
      ← balance_append]
    rfl

end Token

/-- The balance of a block is that of the text it has collected. -/
theorem PendingBlock.Collects.balance_tokens {block : PendingBlock} {before : Nat} {first : String}
    {more : List String} (h : block.Collects before first more) :
    block.balance = Token.balance block.tokens := by
  rw [h.balance, tokens, h.source, Token.balance_scan_intercalate]

/-- A text whose fault is an open block opens more braces than it closes. -/
theorem balance_pos_of_unterminated {text : String} {number : Nat} {opening : Position}
    (h : Statement.ofTokens (Token.scan text number) = .invalid ⟨.unterminatedBlock, opening⟩) :
    0 < Token.balance (Token.scan text number) := by
  by_cases hline : LineEnds (Token.scan text number)
  · -- Where there is no statement at all, there is no block either.
    rw [ofTokens_eq_invalid_iff, Statement.ofTokens?, ← List.append_nil (Token.scan text number),
      Parser.skipLineEnds_append hline] at h
    cases h
  · exact (ofTokens_scan_closing hline h).1

/-- If the item says that a block was never closed, it is about a block with the property. -/
def Item.Accuses (P : PendingBlock → Prop) (item : Item) : Prop :=
  ∀ position, item = .diagnostic ⟨.unparsed .unterminatedBlock, position⟩ →
    ∃ block, P block ∧ position = block.opening

theorem Item.accuses_complaint {P : PendingBlock → Prop} {block : PendingBlock} (h : P block) :
    Item.Accuses P (.diagnostic block.complaint) := by
  intro position heq
  cases heq
  exact ⟨block, h, rfl⟩

namespace Session

/-- The session, when it is fed the line, takes the tokens for a statement. -/
inductive Executes (s : Session) (line : String) : List Token → Prop
  /-- The line is a statement. -/
  | statement (h : s.hasEnded = false) (hpending : s.pending = none)
      (hline : (Token.scan line (s.line + 1)).all Token.isTerminator = false)
      (hblock : PendingBlock.ofLine? line (s.line + 1) (Token.scan line (s.line + 1)) = none) :
      Executes s line (Token.scan line (s.line + 1))
  /-- The line closes a block. -/
  | block {block : PendingBlock} (h : s.hasEnded = false) (hpending : s.pending = some block)
      (hline : Token.isSentinelLine (Token.scan line (s.line + 1)) = false)
      (hbalance : block.balance + Token.balance (Token.scan line (s.line + 1)) ≤ 0) :
      Executes s line (block.extend line (Token.balance (Token.scan line (s.line + 1)))).tokens

/-- The session, when it is fed the line, gives a block up. -/
structure GivesUp (s : Session) (line : String) (block : PendingBlock) : Prop where
  hasEnded : s.hasEnded = false
  pending : s.pending = some block
  line : Token.isSentinelLine (Token.scan line (s.line + 1)) = true

variable {config : Configuration} {lines : List String} {s : Session} {block : PendingBlock}
  {line : String} {bound : Nat} {sink : Sink} {a : Answer} {ts : List Token}

/-- A line is executed, or it gives a block up, or nothing is written for it. -/
theorem feedLine_cases (h : s.feedLine bound line sink = some a) :
    (∃ ts, s.Executes line ts ∧ (s.counted.collecting none).execute bound ts sink = some a) ∨
      (∃ block, s.GivesUp line block ∧
        a = ((s.counted.collecting none).report block.complaint sink).andThen fun s sink =>
          ⟨s.endedBy (.sentinel s.line), sink, none⟩) ∨
      a.sink = sink := by
  cases feedLine_eq_some_iff.1 h with
  | ended => exact .inr (.inr rfl)
  | blank => exact .inr (.inr rfl)
  | opens => exact .inr (.inr rfl)
  | goesOn => exact .inr (.inr rfl)
  | givesUp hended hpending hline => exact .inr (.inl ⟨_, ⟨hended, hpending, hline⟩, rfl⟩)
  | statement hended hpending hline hblock ha =>
    refine .inl ⟨_, .statement hended hpending hline hblock, ?_⟩
    have hcounted : s.counted.collecting none = s.counted := by
      rw [collecting, show none = s.counted.pending from hpending.symm]
    rwa [hcounted]
  | closes hended hpending hline hbalance ha =>
    exact .inl ⟨_, .block hended hpending hline hbalance, ha⟩

/-- What a session writes for a line: what an execution writes, or that a block was never closed. -/
theorem accepts_feedLine {P : Item → Prop} (hprinted : ∀ text, P (.printed text))
    (hechoed : ∀ v, P (.echoed v))
    (htrouble : ∀ ts, s.Executes line ts → ∀ o : Outcome,
      (Statement.ofTokens ts).run s.config.limit bound ⟨s.env, #[]⟩ = some o →
      ∀ trouble, o.result = .error trouble → P (.diagnostic trouble))
    (hcomplaint : ∀ block, s.GivesUp line block → P (.diagnostic block.complaint))
    (h : s.feedLine bound line sink = some a) : sink.Accepts P a.sink := by
  rcases feedLine_cases h with ⟨ts, hexecutes, hrun⟩ | ⟨block, hgives, rfl⟩ | hsink
  · exact execute_accepts (s := s.counted.collecting none) hprinted hechoed
      (htrouble ts hexecutes) hrun
  · exact Answer.andThen_accepts (Sink.accepts_write _ (hcomplaint block hgives)) fun _ _ => .rfl
  · exact .of_eq (by rw [hsink])

/-- What is executed has been read from a text. -/
theorem Executes.exists_scan (h : s.Executes line ts) :
    ∃ text number, ts = Token.scan text number := by
  cases h with
  | statement => exact ⟨_, _, rfl⟩
  | block => exact ⟨_, _, rfl⟩

/-- What is executed does not lack the end of a block. -/
theorem Executes.ofTokens_ne (hknows : Knows lines s) (h : s.Executes line ts)
    (position : Position) :
    Statement.ofTokens ts ≠ .invalid ⟨.unterminatedBlock, position⟩ := by
  intro hread
  cases h with
  | statement _ _ hline hblock =>
    rw [← Bool.not_eq_true, all_isTerminator_scan_iff] at hline
    obtain ⟨block, hsome⟩ :=
      (ofLine?_isSome_iff hline).2 ⟨position, ofTokens_eq_invalid_iff.1 hread⟩
    rw [hblock] at hsome
    cases hsome
  | @block block _ hpending _ hbalance =>
    obtain ⟨-, _, _, _, -, hcollects⟩ := hknows.pending block hpending
    have hpos := balance_pos_of_unterminated hread
    dsimp only [PendingBlock.extend] at hpos
    rw [Token.balance_scan_append_newline _ _ _ (s.line + 1), ← PendingBlock.tokens,
      ← hcollects.balance_tokens] at hpos
    exact absurd hpos (Int.not_lt.2 hbalance)

/-- Evaluating what is executed does not lead to that complaint either. -/
theorem Executes.result_ne (hknows : Knows lines s) (h : s.Executes line ts)
    {limit : Option UInt64} {state : State} {o : Outcome}
    (hrun : (Statement.ofTokens ts).run limit bound state = some o) (position : Position) :
    o.result ≠ .error ⟨.unparsed .unterminatedBlock, position⟩ := by
  intro hresult
  obtain ⟨result, state'⟩ := o
  cases hresult
  exact h.ofTokens_ne hknows position (Statement.eq_invalid_of_run hrun)

/-- Only a line that gives a block up has a block reported. -/
theorem Knows.feedLine_accepts (hknows : Knows lines s)
    (ha : s.feedLine bound line sink = some a) :
    sink.Accepts (Item.Accuses (s.GivesUp line)) a.sink := by
  refine accepts_feedLine (fun _ => nofun) (fun _ => nofun)
    (fun ts hexecutes o ho trouble hresult position heq => ?_)
    (fun _ hgives => Item.accuses_complaint hgives) ha
  cases heq
  exact absurd hresult (hexecutes.result_ne hknows ho position)

/-- The end of the input has a block reported only if it gives one up. -/
theorem finish_accepts (s : Session) (sink : Sink) :
    sink.Accepts (Item.Accuses fun block => s.pending = some block) (s.finish sink).sink :=
  accepts_finish s sink fun _ hpending => Item.accuses_complaint hpending

/-- **Whatever is done with a session, the block that it collects consists of the lines since its
first one and is still open.**  The first line only lacks the end of a block, and the balance is
that of all the lines as one text.  Hence nothing that is executed lacks the end of a block, and
only a block that a sentinel line or the end of the input gives up is reported as never closed. -/
theorem pending_block_invariant (h : Called config lines s) :
    (s.hasEnded = true → s.pending = none) ∧
    (∀ block, s.pending = some block → ∃ before first more,
      lines = before ++ first :: more ∧
      block.firstLine = before.length + 1 ∧
      s.line + 1 = block.firstLine + (first :: more).length ∧
      block.source = "\n".intercalate (first :: more) ∧
      (∃ opening, Statement.ofTokens (Token.scan first block.firstLine) =
        .invalid ⟨.unterminatedBlock, opening⟩) ∧
      block.balance = Token.balance block.tokens ∧ 0 < block.balance) ∧
    (∀ line ts, s.Executes line ts → ∀ position,
      Statement.ofTokens ts ≠ .invalid ⟨.unterminatedBlock, position⟩ ∧
      ∀ (limit : Option UInt64) (bound : Nat) (state : State) (o : Outcome),
        (Statement.ofTokens ts).run limit bound state = some o →
        o.result ≠ .error ⟨.unparsed .unterminatedBlock, position⟩) ∧
    (∀ bound line sink a, s.feedLine bound line sink = some a →
      ((∃ ts, s.Executes line ts ∧ (s.counted.collecting none).execute bound ts sink = some a) ∨
        (∃ block, s.GivesUp line block) ∨ a.sink = sink) ∧
      sink.Accepts (Item.Accuses (s.GivesUp line)) a.sink) ∧
    ∀ sink : Sink,
      sink.Accepts (Item.Accuses fun block => s.pending = some block) (s.finish sink).sink := by
  have hknows := h.reached.knows
  refine ⟨fun hended => ?_, fun block hpending => ?_, fun line ts hexecutes position => ?_,
    fun bound line sink a ha => ⟨?_, hknows.feedLine_accepts ha⟩, finish_accepts s⟩
  · cases hpending : s.pending with
    | none => rfl
    | some block =>
      have hrunning := (hknows.pending block hpending).1
      simp [hended] at hrunning
  · obtain ⟨hrunning, before, first, more, hlines, hcollects⟩ := hknows.pending block hpending
    obtain ⟨opening, hread⟩ := hcollects.unterminated
    refine ⟨before, first, more, hlines, hcollects.firstLine, ?_, hcollects.source,
      ⟨opening, ofTokens_eq_invalid_iff.2 hread⟩, hcollects.balance_tokens, hcollects.positive⟩
    rw [hknows.line hrunning, hlines, hcollects.firstLine, List.length_append]
    omega
  · exact ⟨hexecutes.ofTokens_ne hknows position,
      fun _ _ _ _ hrun => hexecutes.result_ne hknows hrun position⟩
  · exact (feedLine_cases ha).imp_right (.imp_left fun ⟨block, hgives, _⟩ => ⟨block, hgives⟩)

/-- The input breaks off inside a block.  A brace in a string does not close it. -/
theorem pending_block_invariant_broken_off :
    ∃ s block, Called ⟨true, none⟩ ["ila sah \x7b", "kteb \"\x7d\""] s ∧ s.pending = some block ∧
      block.source = "ila sah \x7b\nkteb \"\x7d\"" ∧ block.firstLine = 1 ∧
      block.balance = Token.balance block.tokens ∧ 0 < block.balance ∧
      ∀ sink : Sink,
        sink.Accepts (Item.Accuses fun block => s.pending = some block) (s.finish sink).sink := by
  have hfed : (start ⟨true, none⟩).feedAll 0
      [.ok "ila sah \x7b", .ok "kteb \"\x7d\"", .error ⟨.other, "gone"⟩] .working =
        some (⟨⟨⟨true, none⟩, .empty, 2, 0,
          some ⟨"ila sah \x7b\nkteb \"\x7d\"", 1, ⟨1, 9⟩, 1⟩, none⟩, .working,
          some ⟨.other, "gone"⟩⟩, 3) := by cbv
  have hcalled : Called ⟨true, none⟩ ["ila sah \x7b", "kteb \"\x7d\""] _ :=
    Called.start.feedAll hfed
  obtain ⟨-, hpending, -, -, hfinish⟩ := pending_block_invariant hcalled
  obtain ⟨_, _, _, -, -, -, -, -, hbalance, hpos⟩ := hpending _ rfl
  exact ⟨_, _, hcalled, rfl, rfl, rfl, hbalance, hpos, hfinish⟩

end Session

end DarjaLang
