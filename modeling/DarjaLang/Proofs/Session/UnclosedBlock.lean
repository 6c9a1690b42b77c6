import Mathlib
import DarjaLang.Proofs.Session.Output
import DarjaLang.Proofs.Session.Reached
import DarjaLang.Proofs.Token.Scan

/-!
# Where a block that is never closed is said to be open

When the program ends while a block is being collected, the outermost brace that the first line of
the block leaves open is reported.  It is looked for in that line alone, so a later line can close
it and open another one in its place, without the braces ever balancing in between at the end of a
line.  The report then points at a brace that is closed.

* `finish_reports`, `feedLine_reports`: what is reported at the end of the input and at a sentinel
  line.
* `unclosed_report_iff` says when the report is right: no part of the lines behind the first one may
  close as many braces as the first one leaves open.
* `unclosed_report_of_closed_brace` is a program with two branches for which it is wrong.
-/

set_option autoImplicit false

namespace DarjaLang

namespace Token

/-- Tokens of later lines stand on later lines. -/
theorem le_line_of_mem_ofLines {lines : List String} (hlines : ∀ l ∈ lines, '\n' ∉ l.toList)
    {number : Nat} {t : Token} (ht : t ∈ ofLines number lines) : number ≤ t.position.line := by
  induction lines generalizing number with
  | nil => cases ht
  | cons line lines ih =>
    rw [ofLines] at ht
    rcases List.mem_append.1 ht with ht | ht
    · exact Nat.le_of_eq (line_of_mem_scan (hlines line List.mem_cons_self) ht).symm
    · exact Nat.le_of_succ_le (ih (fun l hl => hlines l (List.mem_cons_of_mem line hl)) ht)

/-- The outermost brace that the first line leaves open is the lowest one of the stack. -/
theorem mem_openBraces_ofLines_iff {first : String} {more : List String} {number : Nat}
    {opening : Position} (hlines : ∀ l ∈ first :: more, '\n' ∉ l.toList)
    (hopening : outermostOpen? (scan first number) = some opening) :
    opening ∈ openBraces (ofLines number (first :: more)) ↔
      ∀ seen, seen <+: ofLines (number + 1) more →
        0 < ((openBraces (scan first number)).length : Int) + balance seen := by
  obtain ⟨inner, hinner⟩ := List.getLast?_eq_some_iff.1 hopening
  have hmem : opening ∈ openBraces (scan first number) := by
    rw [hinner]
    exact List.mem_append_right inner (List.mem_singleton.2 rfl)
  obtain ⟨o, ho, -, hposition⟩ := mem_openBraces hmem
  have hline : opening.line = number := by
    rw [← hposition]
    exact line_of_mem_scan (hlines first List.mem_cons_self) ho
  rw [ofLines, openBraces, List.foldl_append, ← openBraces, hinner]
  refine mem_foldl_pushBrace_iff fun t ht heq => ?_
  have hle := le_line_of_mem_ofLines (fun l hl => hlines l (List.mem_cons_of_mem first hl)) ht
  rw [heq, hline] at hle
  omega

end Token

namespace Session

variable {s : Session} {block : PendingBlock} {sink : Sink}

/-- The end of the input reports a block that is being collected. -/
theorem finish_reports (hended : s.hasEnded = false) (hpending : s.pending = some block)
    (hsink : sink.writeFate sink.writes = none) :
    (s.finish sink).sink.accepted = sink.accepted.push (.diagnostic block.complaint) := by
  obtain ⟨haccepted, hfailure⟩ := report_accepted (s := s.collecting none) block.complaint hsink
  rw [finish_of_some hended hpending, Answer.andThen, hfailure]
  exact haccepted

/-- A sentinel line reports a block that is being collected. -/
theorem feedLine_reports {line : String} (hended : s.hasEnded = false)
    (hpending : s.pending = some block)
    (hline : Token.isSentinelLine (Token.scan line (s.line + 1)) = true)
    (hsink : sink.writeFate sink.writes = none) (bound : Nat) :
    ∃ a, s.feedLine bound line sink = some a ∧
      a.sink.accepted = sink.accepted.push (.diagnostic block.complaint) := by
  refine ⟨_, feedLine_eq_some_iff.2 (.givesUp hended hpending hline), ?_⟩
  obtain ⟨haccepted, hfailure⟩ :=
    report_accepted (s := s.counted.collecting none) block.complaint hsink
  rw [Answer.andThen, hfailure]
  exact haccepted

/-- **The reported brace is never closed exactly if the lines behind its own never close as many
braces as that line leaves open.**  The brace is always one of the first line of the block. -/
theorem unclosed_report_iff {config : Configuration} {lines : List String}
    (hreached : Reached config lines s) (hlines : ∀ l ∈ lines, '\n' ∉ l.toList)
    (hpending : s.pending = some block) :
    (∀ sink : Sink, sink.writeFate sink.writes = none →
      (s.finish sink).sink.accepted = sink.accepted.push (.diagnostic block.complaint)) ∧
    (∀ (bound : Nat) (line : String) (sink : Sink),
      Token.isSentinelLine (Token.scan line (s.line + 1)) = true →
      sink.writeFate sink.writes = none →
      ∃ a, s.feedLine bound line sink = some a ∧
        a.sink.accepted = sink.accepted.push (.diagnostic block.complaint)) ∧
    ∃ before first more, lines = before ++ first :: more ∧
      block.firstLine = before.length + 1 ∧
      (∃ t ∈ Token.scan first block.firstLine,
        t.kind = .leftBrace ∧ t.position = block.complaint.position) ∧
      (block.complaint.position ∈ Token.openBraces (Token.ofLines block.firstLine (first :: more)) ↔
        ∀ seen, seen <+: Token.ofLines (block.firstLine + 1) more →
          0 < ((Token.openBraces (Token.scan first block.firstLine)).length : Int) +
            Token.balance seen) := by
  obtain ⟨hended, before, first, more, rfl, hcollects⟩ := hreached.knows.pending block hpending
  have hopening := hcollects.opening
  refine ⟨fun sink hsink => finish_reports hended hpending hsink,
    fun bound line sink hline hsink => feedLine_reports hended hpending hline hsink bound,
    before, first, more, rfl, hcollects.firstLine, ?_, ?_⟩
  · exact Token.mem_openBraces (List.mem_of_getLast? hopening)
  · exact Token.mem_openBraces_ofLines_iff
      (fun l hl => hlines l (List.mem_append_right before hl)) hopening

/-- The first line of a program with branches starts a block. -/
theorem feedLine_first_branch : (start ⟨true, none⟩).feedLine 0 "ila sah \x7b" .working =
    some ⟨⟨⟨true, none⟩, .empty, 1, 0, some ⟨"ila sah \x7b", 1, ⟨1, 9⟩, 1⟩, none⟩,
      .working, none⟩ := by cbv

/-- A loop inside the block is closed, and the brace of the block is reported. -/
theorem unclosed_report_around_loop :
    ∃ s, Reached ⟨true, none⟩ ["ila sah \x7b", "mazal ghalet \x7b", "\x7d"] s ∧
      (s.finish .working).sink.accepted =
        #[.diagnostic ⟨.unparsed .unterminatedBlock, ⟨1, 9⟩⟩] ∧
      (⟨1, 9⟩ ∈ Token.openBraces (Token.ofLines 1 ["ila sah \x7b", "mazal ghalet \x7b", "\x7d"]) ↔
        ∀ seen, seen <+: Token.ofLines 2 ["mazal ghalet \x7b", "\x7d"] →
          0 < 1 + Token.balance seen) := by
  have hreached : Reached ⟨true, none⟩ ["ila sah \x7b", "mazal ghalet \x7b", "\x7d"]
      ⟨⟨true, none⟩, .empty, 3, 0,
        some ⟨"ila sah \x7b\nmazal ghalet \x7b\n\x7d", 1, ⟨1, 9⟩, 1⟩, none⟩ := by
    have hsecond : Session.feedLine ⟨⟨true, none⟩, .empty, 1, 0,
        some ⟨"ila sah \x7b", 1, ⟨1, 9⟩, 1⟩, none⟩ 0 "mazal ghalet \x7b" .working =
          some ⟨⟨⟨true, none⟩, .empty, 2, 0,
            some ⟨"ila sah \x7b\nmazal ghalet \x7b", 1, ⟨1, 9⟩, 2⟩, none⟩, .working, none⟩ := rfl
    have hthird : Session.feedLine ⟨⟨true, none⟩, .empty, 2, 0,
        some ⟨"ila sah \x7b\nmazal ghalet \x7b", 1, ⟨1, 9⟩, 2⟩, none⟩ 0 "\x7d" .working =
          some ⟨⟨⟨true, none⟩, .empty, 3, 0,
            some ⟨"ila sah \x7b\nmazal ghalet \x7b\n\x7d", 1, ⟨1, 9⟩, 1⟩, none⟩,
            .working, none⟩ := rfl
    exact ((Reached.start.feed feedLine_first_branch).feed hsecond).feed hthird
  obtain ⟨hfinish, -, before, first, more, hlines, hfirst, -, hiff⟩ :=
    unclosed_report_iff hreached (by decide) rfl
  obtain rfl : before = [] := List.length_eq_zero_iff.1 (Nat.succ.inj hfirst.symm)
  cases hlines
  exact ⟨_, hreached, hfinish .working rfl, hiff⟩

/-- The brace of the first branch is reported, although the second line closes it.  The one that is
never closed is that of the second branch. -/
theorem unclosed_report_of_closed_brace :
    ∃ s, Reached ⟨true, none⟩ ["ila sah \x7b", "\x7d wila \x7b"] s ∧
      (s.finish .working).sink.accepted =
        #[.diagnostic ⟨.unparsed .unterminatedBlock, ⟨1, 9⟩⟩] ∧
      Token.openBraces (Token.ofLines 1 ["ila sah \x7b", "\x7d wila \x7b"]) = [⟨2, 8⟩] := by
  have hsecond : Session.feedLine ⟨⟨true, none⟩, .empty, 1, 0,
      some ⟨"ila sah \x7b", 1, ⟨1, 9⟩, 1⟩, none⟩ 0 "\x7d wila \x7b" .working =
        some ⟨⟨⟨true, none⟩, .empty, 2, 0,
          some ⟨"ila sah \x7b\n\x7d wila \x7b", 1, ⟨1, 9⟩, 1⟩, none⟩, .working, none⟩ := rfl
  exact ⟨_, (Reached.start.feed feedLine_first_branch).feed hsecond, rfl, by decide⟩

end Session

end DarjaLang
