import Mathlib
import DarjaLang.Proofs.Reading.OpenBlock
import DarjaLang.Proofs.Session.Step
import DarjaLang.Proofs.Token.Braces
import DarjaLang.Proofs.Token.Scan

/-!
# Which lines start a block

A session collects lines from one whose only fault is that a block is still open.  These are exactly
the lines that are no statement but can still become one.

* `scan_openLine`: a line ends with the end of a line, so what holds of readers up to there holds of
  lines.
* `ofTokens_scan_closing` and `ofTokens_scan_append`: what is only open can be closed, and any other
  fault stays; so the lines with an open block are those that can become a statement
  (`exists_unterminated_iff`).
* `awaitsBlock_iff_ofLine?`: a session awaits a block exactly if the line starts one.
* `open_block_completable` is the result.
-/

set_option autoImplicit false

namespace DarjaLang

open Grammar

variable {line : String} {number : Nat}

/-- Unless a line is blank, there is something in front of its end. -/
theorem scan_openLine (hline : ¬ LineEnds (Token.scan line number)) :
    ∃ stop, Parser.OpenLine stop (Parser.skipLineEnds (Token.scan line number)) := by
  obtain ⟨before, stop, hscan, hstop⟩ := Token.exists_scan_eq_concat line number
  obtain ⟨ends, hsplit, hends, -⟩ := Parser.exists_lineEnds (Token.scan line number)
  have hsuffix : Parser.skipLineEnds (Token.scan line number) <:+ Token.scan line number :=
    ⟨ends, hsplit.symm⟩
  refine ⟨stop, by rw [hstop]; rfl, ?_, fun t ht => ?_⟩
  · refine List.suffix_of_suffix_length_le ⟨before, hscan.symm⟩ hsuffix ?_
    rw [List.length_singleton, Nat.one_le_iff_ne_zero, Ne, List.length_eq_zero_iff]
    intro hnil
    rw [hnil, List.append_nil] at hsplit
    rw [hsplit] at hline
    exact hline hends
  · exact Token.kind_ne_endOfInput_of_mem_scan (hsuffix.subset ht)

/-- A line without a statement is blank. -/
theorem all_isTerminator_scan_iff :
    (Token.scan line number).all Token.isTerminator = true ↔
      LineEnds (Token.scan line number) := by
  rw [List.all_eq_true]
  constructor
  · intro h t ht
    have hinput := Token.kind_ne_endOfInput_of_mem_scan ht
    have hend := h t ht
    rw [Token.isTerminator] at hend
    cases hk : t.kind <;> rw [hk] at hend <;> first | rfl | cases hend
    exact absurd hk hinput
  · intro h t ht
    rw [Token.isTerminator, h t ht]
    rfl

/-- As many closing braces as there are open blocks make a statement of a line whose only fault is
that they are open. -/
theorem ofTokens_scan_closing (hline : ¬ LineEnds (Token.scan line number)) {opening : Position}
    (h : Statement.ofTokens (Token.scan line number) = .invalid ⟨.unterminatedBlock, opening⟩) :
    0 < Token.balance (Token.scan line number) ∧
      ∀ closers eol, (∀ c ∈ closers, c.kind = .rightBrace) →
        (closers.length : Int) = Token.balance (Token.scan line number) →
        eol.kind = .endOfLine →
        (Statement.ofTokens (Token.scan line number ++ closers ++ [eol])).IsValid := by
  obtain ⟨stop, hopen⟩ := scan_openLine hline
  rw [ofTokens_eq_invalid_iff] at h
  obtain ⟨hbalance, hcloses⟩ := Statement.ofTokens?_closing hopen h rfl
  refine ⟨hbalance, fun closers eol hkind hlength heol => ?_⟩
  have hends : LineEnds [eol] := fun t ht => by rw [List.mem_singleton.1 ht, heol]
  rw [ofTokens_isValid_iff, List.append_assoc]
  exact hcloses closers [eol] ⟨hkind, hlength⟩ hends (List.cons_ne_nil eol [])

/-- Any other fault of a line stays, however the line goes on. -/
theorem ofTokens_scan_append (hline : ¬ LineEnds (Token.scan line number)) {e : Complaint}
    (h : Statement.ofTokens (Token.scan line number) = .invalid e)
    (hne : e.cause ≠ .unterminatedBlock) (ys : List Token) :
    Statement.ofTokens (Token.scan line number ++ ys) = .invalid e := by
  obtain ⟨stop, hopen⟩ := scan_openLine hline
  rw [ofTokens_eq_invalid_iff] at h ⊢
  exact (Statement.ofTokens?_append_eq_error hopen.outside hopen.suffix h).2 hne ys

/-- The lines whose only fault is an open block are those that are no statement but can become
one. -/
theorem exists_unterminated_iff (hline : ¬ LineEnds (Token.scan line number)) :
    (∃ opening, Statement.ofTokens? (Token.scan line number) =
        .error ⟨.unterminatedBlock, opening⟩) ↔
      ¬ (Statement.ofTokens (Token.scan line number)).IsValid ∧
        ∃ ys, (Statement.ofTokens (Token.scan line number ++ ys)).IsValid := by
  constructor
  · rintro ⟨opening, h⟩
    rw [← ofTokens_eq_invalid_iff] at h
    obtain ⟨hbalance, hcloses⟩ := ofTokens_scan_closing hline h
    refine ⟨fun hvalid => hvalid _ h, ?_⟩
    refine ⟨List.replicate (Token.balance (Token.scan line number)).toNat
      ⟨.rightBrace, "\x7d", .unknown⟩ ++ [⟨.endOfLine, "", .unknown⟩], ?_⟩
    rw [← List.append_assoc]
    refine hcloses _ _ (fun c hc => ?_) ?_ rfl
    · rw [List.eq_of_mem_replicate hc]
    · rw [List.length_replicate]
      omega
  · rintro ⟨hinvalid, ys, hvalid⟩
    cases hread : Statement.ofTokens? (Token.scan line number) with
    | ok st => exact absurd (ofTokens_isValid_iff.2 ⟨st, hread⟩) hinvalid
    | error e =>
      by_cases hcause : e.cause = .unterminatedBlock
      · exact ⟨e.position, by rw [← hcause]⟩
      · have hstays := ofTokens_scan_append hline (ofTokens_eq_invalid_iff.2 hread) hcause ys
        exact absurd hstays (hvalid e)

/-- The only fault of a line that starts a block is that one is still open. -/
theorem ofLine?_isSome_iff (hline : ¬ LineEnds (Token.scan line number)) :
    (∃ block, PendingBlock.ofLine? line number (Token.scan line number) = some block) ↔
      ∃ opening, Statement.ofTokens? (Token.scan line number) =
        .error ⟨.unterminatedBlock, opening⟩ := by
  constructor
  · rintro ⟨block, h⟩
    rw [PendingBlock.ofLine?] at h
    split at h
    · next opening hread => exact ⟨opening, hread⟩
    · cases h
  · rintro ⟨opening, hread⟩
    obtain ⟨stop, hopen⟩ := scan_openLine hline
    obtain ⟨hbalance, -⟩ := Statement.ofTokens?_closing hopen hread rfl
    obtain ⟨outermost, houtermost⟩ :=
      Option.isSome_iff_exists.1 (Token.outermostOpen?_isSome hbalance)
    refine ⟨⟨line, number, outermost, Token.balance (Token.scan line number)⟩, ?_⟩
    rw [PendingBlock.ofLine?, hread]
    dsimp only
    rw [if_pos hbalance, houtermost]
    rfl

/-- A session awaits a block exactly if the line starts one. -/
theorem awaitsBlock_iff_ofLine? {s : Session} (hended : s.hasEnded = false)
    (hpending : s.pending = none) (hline : ¬ LineEnds (Token.scan line (s.line + 1)))
    (bound : Nat) (sink : Sink) :
    (∃ a, s.feedLine bound line sink = some a ∧ a.session.awaitsBlock = true) ↔
      ∃ block, PendingBlock.ofLine? line (s.line + 1) (Token.scan line (s.line + 1)) =
        some block := by
  rw [← all_isTerminator_scan_iff, Bool.not_eq_true] at hline
  constructor
  · rintro ⟨a, ha, hawaits⟩
    exact ((Session.feedLine_eq_some_iff.1 ha).ofLine?_of_awaitsBlock hended hpending hawaits).2
  · rintro ⟨block, hblock⟩
    exact ⟨_, Session.feedLine_eq_some_iff.2 (.opens hended hpending hline hblock), rfl⟩

/-- **A session starts to collect a block exactly on the lines that can still become a statement.**
If the only fault of a line is an open block, its braces count the open blocks, one of them is the
outermost, and so many closing braces make a statement of the line.  Any other fault stays, however
the line goes on. -/
theorem open_block_completable (line : String) (number : Nat)
    (hline : ¬ LineEnds (Token.scan line number)) :
    (∀ opening, Statement.ofTokens (Token.scan line number) =
        .invalid ⟨.unterminatedBlock, opening⟩ →
      1 ≤ Token.balance (Token.scan line number) ∧
        (Token.outermostOpen? (Token.scan line number)).isSome = true ∧
        ∀ closers eol, (∀ c ∈ closers, c.kind = .rightBrace) →
          (closers.length : Int) = Token.balance (Token.scan line number) →
          eol.kind = .endOfLine →
          (Statement.ofTokens (Token.scan line number ++ closers ++ [eol])).IsValid) ∧
    (∀ e, Statement.ofTokens (Token.scan line number) = .invalid e →
      e.cause ≠ .unterminatedBlock →
      ∀ ys, Statement.ofTokens (Token.scan line number ++ ys) = .invalid e) ∧
    ∀ (s : Session) (bound : Nat) (sink : Sink), s.hasEnded = false → s.pending = none →
      s.line + 1 = number →
      ((∃ a, s.feedLine bound line sink = some a ∧ a.session.awaitsBlock = true) ↔
        ¬ (Statement.ofTokens (Token.scan line number)).IsValid ∧
          ∃ ys, (Statement.ofTokens (Token.scan line number ++ ys)).IsValid) := by
  refine ⟨fun opening h => ?_, fun e h hne ys => ofTokens_scan_append hline h hne ys, ?_⟩
  · obtain ⟨hbalance, hcloses⟩ := ofTokens_scan_closing hline h
    exact ⟨hbalance, Token.outermostOpen?_isSome hbalance, hcloses⟩
  · rintro s bound sink hended hpending rfl
    rw [awaitsBlock_iff_ofLine? hended hpending hline, ofLine?_isSome_iff hline,
      exists_unterminated_iff hline]

/-- The first block of this line is closed, and one brace closes the second. -/
theorem open_block_completable_second_branch :
    ¬ LineEnds (Token.scan "ila sah \x7b\x7d wila \x7b" 1) ∧
      (Statement.ofTokens (Token.scan "ila sah \x7b\x7d wila \x7b" 1 ++
        [⟨.rightBrace, "\x7d", ⟨2, 1⟩⟩] ++ [⟨.endOfLine, "", ⟨2, 2⟩⟩])).IsValid ∧
      ∃ a, (Session.start ⟨true, none⟩).feedLine 0 "ila sah \x7b\x7d wila \x7b" .working = some a ∧
        a.session.awaitsBlock = true := by
  have hline : ¬ LineEnds (Token.scan "ila sah \x7b\x7d wila \x7b" 1) := by
    intro h
    have hfirst := h ⟨.keyword .ila, "ila", ⟨1, 1⟩⟩ List.mem_cons_self
    cases hfirst
  have hopen : Statement.ofTokens (Token.scan "ila sah \x7b\x7d wila \x7b" 1) =
      .invalid ⟨.unterminatedBlock, ⟨1, 17⟩⟩ := by
    rw [ofTokens_eq_invalid_iff]
    cbv
  obtain ⟨hcloses, -, hawaits⟩ := open_block_completable "ila sah \x7b\x7d wila \x7b" 1 hline
  have hvalid := (hcloses _ hopen).2.2 [⟨.rightBrace, "\x7d", ⟨2, 1⟩⟩] ⟨.endOfLine, "", ⟨2, 2⟩⟩
    (by simp) rfl rfl
  refine ⟨hline, hvalid, (hawaits _ 0 _ rfl rfl rfl).2 ⟨fun h => h _ hopen, ?_⟩⟩
  rw [List.append_assoc] at hvalid
  exact ⟨_, hvalid⟩

end DarjaLang
