import DarjaLang.Proofs.Session.BlockStart
import DarjaLang.Proofs.Token.Lexeme

/-!
# The wording of complaints about a line

Whatever is wrong with a text, and however many lines it has, the complaint about it is worded in
one line: it is about a token of the text, it describes that token, and it says one of a few things
that were expected instead.
-/

set_option autoImplicit false

namespace DarjaLang

open Grammar

namespace Parser

variable {t : Token} {e : Complaint}

theorem newlines_of_mem_expectations {expected : String} (h : expected ∈ expectations) :
    newlines expected = 0 := by
  have hall : ∀ expected ∈ expectations, newlines expected = 0 := by decide
  exact hall expected h

/-- To name what was expected takes one line. -/
theorem newlines_unexpected (ht : t.InLine) {expected : String} (h : expected ∈ expectations) :
    newlines (ParseError.unexpected (some t) expected).cause.message = 0 := by
  have hexpected := newlines_of_mem_expectations h
  dsimp only [ParseError.unexpected]
  split
  · split
    · exact ParseError.newlines_lexical _
    · exact ParseError.newlines_lexical _
  · rw [ParseError.newlines_incompleteExpression, hexpected]
  · rw [ParseError.newlines_incompleteExpression, hexpected]
  · rw [ParseError.newlines_unexpectedToken, ht.describe, hexpected]

theorem ExprComplaint.newlines_message (h : ExprComplaint t e) (ht : t.InLine) :
    newlines e.cause.message = 0 := by
  cases h with
  | unexpected h => exact newlines_unexpected ht h
  | sentinel =>
    show newlines ParseError.misplacedSentinel.message = 0
    rfl
  | nesting =>
    show newlines ParseError.nestingTooDeep.message = 0
    rfl
  | unmatched =>
    show newlines (ParseError.unmatchedDelimiter '(').message = 0
    rfl

theorem StatementComplaint.newlines_message (h : StatementComplaint t e) (ht : t.InLine) :
    newlines e.cause.message = 0 := by
  cases h with
  | expression h => exact h.newlines_message ht
  | nesting =>
    show newlines ParseError.nestingTooDeep.message = 0
    rfl
  | unterminated =>
    show newlines ParseError.unterminatedBlock.message = 0
    rfl

theorem LineComplaint.newlines_message (h : LineComplaint t e) (ht : t.InLine) :
    newlines e.cause.message = 0 := by
  cases h with
  | statement h => exact h.newlines_message ht
  | trailing => rw [ParseError.newlines_trailingTokens, ht.describe]

end Parser

/-- **The complaint about a text takes one line.** -/
theorem Statement.newlines_message_of_ofTokens? {text : String} {number : Nat} {e : Complaint}
    (h : Statement.ofTokens? (Token.scan text number) = .error e) :
    newlines e.cause.message = 0 := by
  by_cases hline : LineEnds (Token.scan text number)
  · -- There is nothing in the text that the complaint could be about.
    rw [Statement.ofTokens?, ← List.append_nil (Token.scan text number),
      Parser.skipLineEnds_append hline] at h
    cases h
    rfl
  · obtain ⟨stop, hopen⟩ := scan_openLine hline
    obtain ⟨⟨t, ht, hcomplaint⟩, -⟩ :=
      Statement.ofTokens?_append_eq_error hopen.outside hopen.suffix h
    exact hcomplaint.newlines_message (Token.inLine_of_mem_scan ht)

end DarjaLang
