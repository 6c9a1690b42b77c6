import DarjaLang.Proofs.Evaluation.Wording
import DarjaLang.Proofs.Session.Pending
import DarjaLang.Proofs.Session.Working

/-!
# How many lines a diagnostic takes

The output has one line for each item, and diagnostics are meant to be lines of it.  They are, but
for the strings that a program has built itself: when `int` or `float` cannot read a string, the
diagnostic shows the string as it is.

* `Item.BreaksAsQuoted` says that a diagnostic has the newlines of the string that it shows and no
  others, and `answer_breaksAsQuoted` says it of everything that a session writes.
* `diagnostic_takes_line_iff` is the result, and `diagnostic_of_two_lines` is a program whose only
  diagnostic takes two lines.
-/

set_option autoImplicit false

namespace DarjaLang

open Grammar

/-- What stands around the wording has no newlines. -/
theorem Trouble.newlines_text_of_breaksAsQuoted {trouble : Trouble}
    (h : trouble.cause.BreaksAsQuoted) :
    newlines (trouble.text EvalError.message) = newlines trouble.cause.quoted := by
  have hfront : newlines "Error on " = 0 := rfl
  have hcolon : newlines ": " = 0 := rfl
  rw [← h, Diagnostic.text, newlines_append, newlines_append, newlines_append, hfront, hcolon,
    Position.newlines_describe, Nat.zero_add]

theorem Trouble.newline_mem_text_iff {trouble : Trouble} (h : trouble.cause.BreaksAsQuoted) :
    '\n' ∈ (trouble.text EvalError.message).toList ↔ '\n' ∈ trouble.cause.quoted.toList := by
  rw [← not_iff_not, ← newlines_eq_zero_iff, ← newlines_eq_zero_iff,
    newlines_text_of_breaksAsQuoted h]

/-- A cause shows no newline exactly if it is no failed conversion of a string that has one. -/
theorem EvalError.newline_not_mem_quoted_iff {e : EvalError} :
    '\n' ∉ e.quoted.toList ↔
      ∀ s, e = .invalidArgument (.notInteger s) ∨ e = .invalidArgument (.notNumber s) →
        '\n' ∉ s.toList := by
  constructor
  · rintro h s (rfl | rfl)
    · exact h
    · exact h
  · intro h
    rw [quoted.eq_def]
    split
    · exact h _ (.inl rfl)
    · exact h _ (.inr rfl)
    · exact List.not_mem_nil

/-- A diagnostic has the newlines of the string that it shows, and no others. -/
def Item.BreaksAsQuoted (item : Item) : Prop :=
  ∀ trouble, item = .diagnostic trouble → trouble.cause.BreaksAsQuoted

theorem Item.breaksAsQuoted_diagnostic {trouble : Trouble} (h : trouble.cause.BreaksAsQuoted) :
    Item.BreaksAsQuoted (.diagnostic trouble) := by
  intro other heq
  cases heq
  exact h

/-- That a block was never closed is said in one line. -/
theorem PendingBlock.breaksAsQuoted_complaint (block : PendingBlock) :
    Item.BreaksAsQuoted (.diagnostic block.complaint) := by
  refine Item.breaksAsQuoted_diagnostic ?_
  show newlines ParseError.unterminatedBlock.message = newlines ""
  rfl

namespace Session

variable {s : Session} {bound : Nat} {line : String} {sink : Sink} {a : Answer}

/-! ## Calls -/

theorem feedLine_breaksAsQuoted (h : s.feedLine bound line sink = some a) :
    sink.Accepts Item.BreaksAsQuoted a.sink := by
  refine accepts_feedLine (fun _ => nofun) (fun _ => nofun)
    (fun ts hexecutes o hrun trouble hresult => ?_)
    (fun block _ => block.breaksAsQuoted_complaint) h
  obtain ⟨text, number, rfl⟩ := hexecutes.exists_scan
  obtain ⟨result, state⟩ := o
  cases hresult
  exact Item.breaksAsQuoted_diagnostic (Statement.breaksAsQuoted_of_run hrun)

/-- Whatever a session is told to do, its diagnostics break lines only with what they show. -/
theorem answer_breaksAsQuoted {request : Request} (h : s.answer bound sink request = some a) :
    sink.Accepts Item.BreaksAsQuoted a.sink := by
  have hfinish : ∀ (s : Session) (sink : Sink),
      sink.Accepts Item.BreaksAsQuoted (s.finish sink).sink := fun s sink =>
    accepts_finish s sink fun block _ => block.breaksAsQuoted_complaint
  match request with
  | .line text => exact feedLine_breaksAsQuoted h
  | .finish =>
    cases h
    exact hfinish s sink
  | .lines input =>
    obtain ⟨⟨last, looked⟩, hfed, hlast⟩ := Option.map_eq_some_iff.1 h
    cases hlast
    exact accepts_feedAll (fun _ _ _ _ h => feedLine_breaksAsQuoted h) hfinish hfed

/-- **A diagnostic takes one line, unless it shows a string that takes more.**  Whatever a session
is told to do, each of the diagnostics that it writes has as many newlines as the string it shows,
and only a failed conversion shows one. -/
theorem diagnostic_takes_line_iff {request : Request} (h : s.answer bound sink request = some a) :
    ∃ new : Array Item, a.sink.accepted = sink.accepted ++ new ∧
      ∀ trouble, .diagnostic trouble ∈ new →
        newlines (trouble.text EvalError.message) = newlines trouble.cause.quoted ∧
          ('\n' ∉ (trouble.text EvalError.message).toList ↔
            ∀ shown, trouble.cause = .invalidArgument (.notInteger shown) ∨
              trouble.cause = .invalidArgument (.notNumber shown) → '\n' ∉ shown.toList) := by
  obtain ⟨new, hnew, hbreaks⟩ := answer_breaksAsQuoted h
  refine ⟨new, hnew, fun trouble htrouble => ?_⟩
  have hcause := hbreaks _ htrouble trouble rfl
  refine ⟨Trouble.newlines_text_of_breaksAsQuoted hcause, ?_⟩
  rw [Trouble.newline_mem_text_iff hcause, EvalError.newline_not_mem_quoted_iff]

/-! ## A diagnostic of two lines -/

/-- The argument of `int` is a string of two lines. -/
theorem ofTokens?_broken : Statement.ofTokens? (Token.scan "int(\"a\\nb\")" 1) =
    .ok (.expression (.call "int" [.literal (.string "a\nb") ⟨1, 5⟩] ⟨1, 1⟩) ⟨1, 1⟩) := by
  have hargument : IsExpr .disjunction 1 [⟨.string "a\nb", "\"a\\nb\"", ⟨1, 5⟩⟩]
      (.literal (.string "a\nb") ⟨1, 5⟩) := .of_primary (.literal rfl) _
  have hcall := IsExpr.call (d := 0) (t := ⟨.identifier "int", "int", ⟨1, 1⟩⟩)
    (o := ⟨.leftParen, "(", ⟨1, 4⟩⟩) (c := ⟨.rightParen, ")", ⟨1, 11⟩⟩) rfl rfl rfl (by decide)
    (.some (.one hargument))
  have hline := IsLine.statement (.expression (hcall.of_primary .disjunction))
  have hscan : beforeInputEnd (Token.scan "int(\"a\\nb\")" 1) =
      [] ++ [⟨.identifier "int", "int", ⟨1, 1⟩⟩, ⟨.leftParen, "(", ⟨1, 4⟩⟩,
        ⟨.string "a\nb", "\"a\\nb\"", ⟨1, 5⟩⟩, ⟨.rightParen, ")", ⟨1, 11⟩⟩] ++
      [⟨.endOfLine, "", ⟨1, 12⟩⟩] := by cbv
  exact hline.ofTokens? hscan .nil (List.forall_mem_singleton.2 rfl)

/-- The string is no integer, and the diagnostic shows it. -/
theorem feedLine_broken : (start ⟨true, none⟩).feedLine 0 "int(\"a\\nb\")" .working =
    some ⟨⟨⟨true, none⟩, .empty, 1, 1, none, none⟩,
      Sink.working.taking [.diagnostic ⟨.invalidArgument (.notInteger "a\nb"), ⟨1, 1⟩⟩] 1,
      none⟩ := by
  have hrun : (Statement.ofTokens (Token.scan "int(\"a\\nb\")" 1)).run none 0 ⟨.empty, #[]⟩ =
      some ⟨.error ⟨.invalidArgument (.notInteger "a\nb"), ⟨1, 1⟩⟩, ⟨.empty, #[]⟩⟩ := by
    rw [(ofTokens_valid_iff.2 ofTokens?_broken).1]
    cbv
  have hexecutes := execute_of_tells (s := counted (start ⟨true, none⟩)) hrun
    (tells_report (counted (start ⟨true, none⟩)) _) Sink.works_working
  exact (feedLine_of_statement rfl rfl (by cbv)
    (PendingBlock.ofLine?_eq_none ofTokens?_broken)).trans hexecutes

/-- The diagnostic about the string has its newline and no other. -/
theorem diagnostic_takes_line_iff_broken :
    ∃ a, (start ⟨true, none⟩).answer 0 .working (.line "int(\"a\\nb\")") = some a ∧
      newlines ((⟨.invalidArgument (.notInteger "a\nb"), ⟨1, 1⟩⟩ : Trouble).text
        EvalError.message) = 1 := by
  have hanswer : (start ⟨true, none⟩).answer 0 .working (.line "int(\"a\\nb\")") = some _ :=
    feedLine_broken
  obtain ⟨new, hnew, htrouble⟩ := diagnostic_takes_line_iff hanswer
  have hmem : .diagnostic ⟨.invalidArgument (.notInteger "a\nb"), ⟨1, 1⟩⟩ ∈ new := by
    rw [← Array.mem_toList_iff, ← List.nil_append new.toList]
    have hlist := congrArg Array.toList hnew
    rw [Sink.toList_accepted_taking, Array.toList_append] at hlist
    exact hlist ▸ List.mem_singleton_self _
  exact ⟨_, hanswer, (htrouble _ hmem).1⟩

/-- A line without a newline is reported by a diagnostic that has one. -/
theorem diagnostic_of_two_lines :
    '\n' ∉ "int(\"a\\nb\")".toList ∧
      ∃ a trouble, (start ⟨true, none⟩).feedLine 0 "int(\"a\\nb\")" .working = some a ∧
        a.sink.accepted = #[.diagnostic trouble] ∧
        '\n' ∈ (trouble.text EvalError.message).toList := by
  have haccepted : (Sink.working.taking
      [.diagnostic ⟨.invalidArgument (.notInteger "a\nb"), ⟨1, 1⟩⟩] 1).accepted =
        #[.diagnostic ⟨.invalidArgument (.notInteger "a\nb"), ⟨1, 1⟩⟩] := by
    simp [Sink.taking, Sink.working, Sink.answering]
  have hline : '\n' ∉ "int(\"a\\nb\")".toList := by decide
  have htext : '\n' ∈ ((⟨.invalidArgument (.notInteger "a\nb"), ⟨1, 1⟩⟩ : Trouble).text
      EvalError.message).toList := by
    have hcause : (EvalError.invalidArgument (.notInteger "a\nb")).OfOperands := trivial
    have hshown : '\n' ∈ "a\nb".toList := by decide
    rw [Trouble.newline_mem_text_iff]
    · exact hshown
    · exact hcause.breaksAsQuoted
  exact ⟨hline, _, _, feedLine_broken, haccepted, htext⟩

end Session

end DarjaLang
