import DarjaLang.Proofs.Evaluation.Place
import DarjaLang.Proofs.Session.Pending
import DarjaLang.Proofs.Session.UnclosedBlock

/-!
# Where diagnostics stand

A diagnostic points into the lines that a session has been fed: at a token of the statement that is
executed, or at the brace of the block that is given up.  The place that stands for no token at all
is never reported, since a line without a statement is not executed.

* `Item.PointsInto` says where a diagnostic stands.
* `Executes.exists_lines`: what is executed consists of the lines since the first one of the
  statement.
* `diagnostic_at_token` is the result.
-/

set_option autoImplicit false

namespace DarjaLang

open Grammar

/-- If the item is a diagnostic, it stands at a token of one of the lines, and that line is neither
in front of `first` nor behind `last`. -/
def Item.PointsInto (lines : List String) (first last : Nat) (item : Item) : Prop :=
  ∀ trouble, item = .diagnostic trouble →
    first ≤ trouble.position.line ∧ trouble.position.line ≤ last ∧
      Token.AtLines 1 lines trouble.position ∧ trouble.position ≠ .unknown

/-- The brace of a block stands in its first line. -/
theorem PendingBlock.Collects.atLines {block : PendingBlock} {before : Nat} {first : String}
    {more : List String} (h : block.Collects before first more) (hfirst : '\n' ∉ first.toList)
    (behind : List String) :
    Token.AtLines (before + 1) (first :: behind) block.complaint.position := by
  obtain ⟨t, ht, -, hposition⟩ := Token.mem_openBraces (List.mem_of_getLast? h.opening)
  rw [h.firstLine] at ht
  have hat := Token.atLines_of_mem hfirst ht behind
  rwa [hposition] at hat

namespace Session

/-- The first line of the block that is being collected, or the next line if there is none. -/
def firstLine (s : Session) : Nat :=
  match s.pending with
  | some block => block.firstLine
  | none => s.line + 1

variable {config : Configuration} {lines : List String} {s : Session} {line : String}
  {bound : Nat} {sink : Sink} {a : Answer} {ts : List Token}

theorem firstLine_of_none (h : s.pending = none) : s.firstLine = s.line + 1 := by
  rw [firstLine, h]

theorem firstLine_of_some {block : PendingBlock} (h : s.pending = some block) :
    s.firstLine = block.firstLine := by
  rw [firstLine, h]

/-! ## Places -/

/-- A place in the last lines is one in all lines. -/
theorem pointsInto_of_atLines {before chunk : List String} {trouble : Trouble}
    (h : Token.AtLines (before.length + 1) chunk trouble.position) :
    Item.PointsInto (before ++ chunk) (before.length + 1) (before ++ chunk).length
      (.diagnostic trouble) := by
  intro other heq
  cases heq
  have hlines : Token.AtLines 1 (before ++ chunk) trouble.position :=
    .append (Nat.add_comm before.length 1 ▸ h)
  obtain ⟨inside, text, behind, rfl, hline, -⟩ := h
  refine ⟨?_, ?_, hlines, fun hunknown => ?_⟩
  · omega
  · simp only [List.length_append, List.length_cons]
    omega
  · rw [hunknown] at hline
    have hzero : Position.unknown.line = 0 := rfl
    omega

/-- Trouble with joined lines stands in one of them. -/
theorem atLines_of_run {first : String} {more : List String}
    (hlines : ∀ line ∈ first :: more, '\n' ∉ line.toList) {number : Nat}
    (hstatement : ¬LineEnds (Token.scan ("\n".intercalate (first :: more)) number))
    {limit : Option UInt64} {state : State} {o : Outcome}
    (hrun : (Statement.ofTokens (Token.scan ("\n".intercalate (first :: more)) number)).run
      limit bound state = some o)
    {trouble : Trouble} (htrouble : o.result = .error trouble) :
    Token.AtLines number (first :: more) trouble.position := by
  obtain ⟨result, state'⟩ := o
  cases htrouble
  obtain ⟨t, ht, hposition⟩ := Statement.exists_token_of_run hstatement hrun
  exact hposition ▸ Token.atLines_of_mem_intercalate hlines ht

/-! ## What is executed -/

theorem Executes.hasEnded (h : s.Executes line ts) : s.hasEnded = false := by
  cases h with
  | statement hended => exact hended
  | block hended => exact hended

/-- What is executed consists of the lines since the first one of the statement. -/
theorem Executes.exists_lines (hknows : Knows lines s) (h : s.Executes line ts) :
    ∃ before first more, lines ++ [line] = before ++ first :: more ∧
      s.firstLine = before.length + 1 ∧
      ts = Token.scan ("\n".intercalate (first :: more)) (before.length + 1) := by
  have hnumber := hknows.line h.hasEnded
  cases h with
  | statement _ hpending =>
    refine ⟨lines, line, [], rfl, ?_, ?_⟩
    · rw [firstLine_of_none hpending, hnumber]
    · rw [String.intercalate_singleton, hnumber]
  | @block block _ hpending =>
    obtain ⟨-, before, first, more, hlines, hcollects⟩ := hknows.pending block hpending
    refine ⟨before, first, more ++ [line], ?_, ?_, ?_⟩
    · rw [hlines, List.append_assoc, List.cons_append]
    · rw [firstLine_of_some hpending, hcollects.firstLine]
    · rw [← List.cons_append, String.intercalate_append_of_ne_nil (by simp) (by simp),
        String.intercalate_singleton, ← hcollects.source, ← hcollects.firstLine]
      rfl

/-- There is a statement in what is executed. -/
theorem Executes.not_lineEnds (hknows : Knows lines s) (h : s.Executes line ts) :
    ¬LineEnds ts := by
  intro hends
  cases h with
  | statement _ _ hline =>
    rw [all_isTerminator_scan_iff.2 hends] at hline
    cases hline
  | @block block _ hpending =>
    obtain ⟨-, _, _, _, -, hcollects⟩ := hknows.pending block hpending
    have hopen : LineEnds block.tokens := fun t ht => by
      by_contra hkind
      exact hkind (hends t (Token.mem_scan_append_newline ht hkind line))
    have hpositive := hcollects.positive
    rw [hcollects.balance_tokens, (WellBraced.lineEnds hopen).balance] at hpositive
    exact absurd hpositive (Int.lt_irrefl 0)

/-! ## What is written -/

/-- A line is counted. -/
theorem line_of_feedLine (hended : s.hasEnded = false) (h : s.feedLine bound line sink = some a) :
    a.session.line = s.line + 1 := by
  cases feedLine_eq_some_iff.1 h with
  | ended hnot => simp [hended] at hnot
  | blank | opens | goesOn => rfl
  | statement _ _ _ _ hrun => exact (execute_samePlace hrun).line
  | givesUp =>
    refine SamePlace.line (s := s.counted.collecting none) ?_
    exact Answer.andThen_samePlace (report_samePlace _) fun _ => endedBy_samePlace _
  | closes _ _ _ _ hrun => exact (execute_samePlace hrun).line

theorem Knows.feedLine_pointsInto (hknows : Knows lines s)
    (hlines : ∀ l ∈ lines ++ [line], '\n' ∉ l.toList)
    (ha : s.feedLine bound line sink = some a) :
    sink.Accepts (Item.PointsInto (lines ++ [line]) s.firstLine a.session.line) a.sink := by
  have hlast : s.hasEnded = false → a.session.line = (lines ++ [line]).length := fun hended => by
    rw [line_of_feedLine hended ha, hknows.line hended, List.length_append, List.length_singleton]
  refine accepts_feedLine (fun _ => nofun) (fun _ => nofun)
    (fun ts hexecutes o hrun trouble htrouble => ?_) (fun block hgives => ?_) ha
  · obtain ⟨before, first, more, hsplit, hfirst, rfl⟩ := hexecutes.exists_lines hknows
    rw [hlast hexecutes.hasEnded, hsplit, hfirst]
    rw [hsplit] at hlines
    exact pointsInto_of_atLines (atLines_of_run
      (fun l hl => hlines l (List.mem_append_right before hl)) (hexecutes.not_lineEnds hknows)
      hrun htrouble)
  · obtain ⟨-, before, first, more, hsplit, hcollects⟩ := hknows.pending block hgives.pending
    rw [hlast hgives.hasEnded, firstLine_of_some hgives.pending, hcollects.firstLine]
    rw [hsplit, List.append_assoc, List.cons_append] at hlines ⊢
    exact pointsInto_of_atLines (hcollects.atLines (hlines first (by simp)) _)

theorem Knows.finish_pointsInto (hknows : Knows lines s) (hlines : ∀ l ∈ lines, '\n' ∉ l.toList)
    (sink : Sink) :
    sink.Accepts (Item.PointsInto lines s.firstLine s.line) (s.finish sink).sink := by
  refine accepts_finish s sink fun block hpending => ?_
  obtain ⟨hended, before, first, more, hsplit, hcollects⟩ := hknows.pending block hpending
  rw [hknows.line hended, firstLine_of_some hpending, hcollects.firstLine]
  rw [hsplit] at hlines ⊢
  exact pointsInto_of_atLines (hcollects.atLines (hlines first (by simp)) _)

/-- **Every diagnostic stands at a token of a line.**  It is one of the lines from the first one of
the statement that is executed or collected to the last one that has been fed, and never the place
that stands for no token. -/
theorem diagnostic_at_token (h : Called config lines s)
    (hlines : ∀ line ∈ lines, '\n' ∉ line.toList) :
    (∀ bound line sink a, '\n' ∉ line.toList → s.feedLine bound line sink = some a →
      sink.Accepts (Item.PointsInto (lines ++ [line]) s.firstLine a.session.line) a.sink) ∧
    ∀ sink : Sink,
      sink.Accepts (Item.PointsInto lines s.firstLine s.line) (s.finish sink).sink := by
  have hknows := h.reached.knows
  refine ⟨fun bound line sink a hline ha => hknows.feedLine_pointsInto (fun l hl => ?_) ha,
    hknows.finish_pointsInto hlines⟩
  rcases List.mem_append.1 hl with hl | hl
  · exact hlines l hl
  · rwa [List.mem_singleton.1 hl]

set_option maxRecDepth 2000 in
/-- The second line of a block is not a statement, which is found out when the third one closes the
block. -/
theorem diagnostic_at_token_inside_block :
    ∃ s a, Called ⟨true, none⟩ ["ila sah \x7b", "  )"] s ∧
      s.feedLine 0 "\x7d" .working = some a ∧
      a.sink.accepted =
        #[.diagnostic ⟨.unparsed (.unexpectedToken "')'" "an expression"), ⟨2, 3⟩⟩] ∧
      Sink.working.Accepts (Item.PointsInto ["ila sah \x7b", "  )", "\x7d"] 1 3) a.sink := by
  have hmore : feedLine ⟨⟨true, none⟩, .empty, 1, 0, some ⟨"ila sah \x7b", 1, ⟨1, 9⟩, 1⟩, none⟩
      0 "  )" .working = some ⟨⟨⟨true, none⟩, .empty, 2, 0,
        some ⟨"ila sah \x7b\n  )", 1, ⟨1, 9⟩, 1⟩, none⟩, .working, none⟩ := by cbv
  have hcloses : feedLine ⟨⟨true, none⟩, .empty, 2, 0,
      some ⟨"ila sah \x7b\n  )", 1, ⟨1, 9⟩, 1⟩, none⟩ 0 "\x7d" .working =
        some ⟨⟨⟨true, none⟩, .empty, 3, 1, none, none⟩,
          ⟨Sink.working.writeFate, Sink.working.flushFate, 1, 1,
            #[.diagnostic ⟨.unparsed (.unexpectedToken "')'" "an expression"), ⟨2, 3⟩⟩]⟩,
          none⟩ := by cbv
  have hcalled : Called ⟨true, none⟩ ["ila sah \x7b", "  )"] _ :=
    (Called.start.feedLine feedLine_first_branch).feedLine hmore
  have hlines : ∀ line ∈ ["ila sah \x7b", "  )"], '\n' ∉ line.toList := by decide
  have hplace := (diagnostic_at_token hcalled hlines).1 0 "\x7d" .working _ (by decide) hcloses
  exact ⟨_, _, hcalled, hcloses, rfl, hplace⟩

end Session

end DarjaLang
