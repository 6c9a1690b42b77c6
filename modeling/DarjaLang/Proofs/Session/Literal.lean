import DarjaLang.Proofs.Grammar.Statement.Completeness
import DarjaLang.Proofs.Session.Reached
import DarjaLang.Proofs.Session.Working
import DarjaLang.Proofs.Token.Literal

/-!
# Printing string literals

A text that is written as a literal behind `kteb` is printed as it was.  A literal with an unknown
escape makes its line unreadable, and the complaint is about the place of its first quote.

* `Session.writes_print_quoted` says what a session writes for such a line.
* `Session.literals_carry_any_text` puts this together with the tokens of a literal.
-/

set_option autoImplicit false

namespace DarjaLang

open Grammar

/-! ## Reading the line -/

namespace Statement

variable {lexeme text : String} {place position stop : Position}

/-- A string behind `kteb` is printed. -/
theorem ofTokens?_print_string :
    ofTokens? [⟨.keyword .kteb, "kteb", place⟩, ⟨.string text, lexeme, position⟩,
      ⟨.endOfLine, "", stop⟩] = .ok (.print [.literal (.string text) position] place) := by
  have hliteral : IsExpr .disjunction 0 [⟨.string text, lexeme, position⟩]
      (.literal (.string text) position) := .of_primary (.literal rfl) _
  have hline := IsLine.statement (.print (t := ⟨.keyword .kteb, "kteb", place⟩) rfl (.one hliteral))
  have hafter : LineEnds [⟨.endOfLine, "", stop⟩] := List.forall_mem_singleton.2 rfl
  exact hline.ofTokens? (by cbv) .nil hafter

/-- A faulty literal behind `kteb` makes the line unreadable. -/
theorem ofTokens_print_error :
    ofTokens [⟨.keyword .kteb, "kteb", place⟩, ⟨.error '"', lexeme, position⟩,
      ⟨.endOfLine, "", stop⟩] = .invalid ⟨.lexical .invalidString, position⟩ := by
  cbv

end Statement

/-! ## Printing the string -/

theorem Statement.run_print_string {limit : Option UInt64} {bound : Nat} {text : String}
    {place position : Position} {env : Environment} :
    run limit bound (.print [.literal (.string text) place] position) ⟨env, #[]⟩ =
      some ⟨.ok (.next none), ⟨env, #[text]⟩⟩ := by
  have hvalues : Expr.evalAll env [.literal (.string text) place] = .ok [.string text] := rfl
  rw [run, hvalues]
  simp [Value.text]

namespace Session

variable {s : Session} {text : String}

/-- **A session prints the text that it is given as a literal**, and nothing else. -/
theorem writes_print_quoted (hrunning : s.hasEnded = false) (hpending : s.pending = none) :
    s.Writes ("kteb " ++ Token.quoted text) [.printed text] s.counted := by
  have hscan := Token.scan_print_literal (Token.isBody_flatMap_escaped text.toList) (s.line + 1)
  rw [Token.literalKind_flatMap_escaped] at hscan
  have hread : Statement.ofTokens? (Token.scan ("kteb " ++ Token.quoted text) (s.line + 1)) =
      .ok (.print [.literal (.string text) ⟨s.line + 1, 6⟩] ⟨s.line + 1, 1⟩) := by
    rw [Token.quoted, hscan]
    exact Statement.ofTokens?_print_string
  refine ⟨0, 2, fun sink hsink => ?_⟩
  have hall : (Token.scan ("kteb " ++ Token.quoted text) (s.line + 1)).all Token.isTerminator =
      false := by
    rw [Token.quoted, hscan]
    rfl
  rw [feedLine_of_statement hrunning hpending hall (PendingBlock.ofLine?_eq_none hread)]
  have hrun := (ofTokens_valid_iff.2 hread).1
  refine execute_of_tells (o := ⟨.ok (.next none), ⟨s.env, #[text]⟩⟩) ?_ ?_ hsink
  · rw [hrun]
    exact Statement.run_print_string
  · exact tells_nothing _

/-- **String literals can carry any text.**  A text that is written as a literal is one token that
stands for the text, and printing it prints the text.  A closed literal is a string if and only if
each backslash in it, read from the left, has a letter or a mark behind it that makes a known
escape.  Otherwise all of it is one error, and behind `kteb` the complaint is about its first quote.
What stands behind the literal makes no difference to that. -/
theorem literals_carry_any_text :
    (∀ (text : String) (line : Nat), Token.scan (Token.quoted text) line =
      [⟨.string text, Token.quoted text, ⟨line, 1⟩⟩,
        ⟨.endOfLine, "", .behind line (Token.quoted text).toList⟩]) ∧
    (∀ (s : Session) (text : String), s.hasEnded = false → s.pending = none →
      s.Writes ("kteb " ++ Token.quoted text) [.printed text] s.counted) ∧
    ∀ body : List Char, Token.IsBody body →
      (∀ rest, (∃ text, Token.Taken (some (.string text)) ('"' :: (body ++ ['"'])) rest) ↔
        Token.EscapesKnown body) ∧
      (∀ line, (∃ text, Token.scan (Token.literal body) line =
          [⟨.string text, Token.literal body, ⟨line, 1⟩⟩,
            ⟨.endOfLine, "", .behind line (Token.literal body).toList⟩]) ↔
        Token.EscapesKnown body) ∧
      (¬Token.EscapesKnown body →
        (∀ rest, Token.Taken (some (.error '"')) ('"' :: (body ++ ['"'])) rest) ∧
        ∀ line, Token.scan (Token.literal body) line =
            [⟨.error '"', Token.literal body, ⟨line, 1⟩⟩,
              ⟨.endOfLine, "", .behind line (Token.literal body).toList⟩] ∧
          Statement.ofTokens (Token.scan ("kteb " ++ Token.literal body) line) =
            .invalid ⟨.lexical .invalidString, ⟨line, 6⟩⟩) := by
  refine ⟨fun text line => ?_, fun s text => writes_print_quoted, fun body hbody => ?_⟩
  · have hscan := Token.scan_literal (Token.isBody_flatMap_escaped text.toList) line
    rwa [Token.literalKind_flatMap_escaped] at hscan
  have htaken : ∀ rest, Token.Taken (some (Token.literalKind body)) ('"' :: (body ++ ['"'])) rest :=
    fun rest => .rule (Token.longest_literal hbody rest)
  refine ⟨fun rest => ?_, fun line => ?_, fun hunknown => ?_⟩
  · rw [← Token.literalKind_eq_string_iff]
    refine ⟨fun ⟨text, h⟩ => ⟨text, ?_⟩, fun ⟨text, h⟩ => ⟨text, h ▸ htaken rest⟩⟩
    exact Option.some.inj ((htaken rest).unique h rfl).1
  · rw [Token.scan_literal hbody, ← Token.literalKind_eq_string_iff]
    simp
  · have hkind : Token.literalKind body = .error '"' := by
      obtain ⟨-, hknown, -⟩ | ⟨-, hkind⟩ := Token.literalKind_cases body
      · exact absurd hknown hunknown
      · exact hkind
    rw [hkind] at htaken
    refine ⟨htaken, fun line => ⟨?_, ?_⟩⟩
    · rw [Token.scan_literal hbody, hkind]
    · rw [Token.scan_print_literal hbody, hkind]
      exact Statement.ofTokens_print_error

/-- A text with everything in it that needs an escape, and a literal with a backslash in front of a
letter that makes no escape. -/
theorem literals_carry_any_text_escapes :
    (start ⟨false, none⟩).Writes "kteb \"\\\"\\\\\\n\\t//\"" [.printed "\"\\\n\t//"]
        (start ⟨false, none⟩).counted ∧
      Statement.ofTokens (Token.scan "kteb \"\\\\\\q\"" 3) =
        .invalid ⟨.lexical .invalidString, ⟨3, 6⟩⟩ := by
  obtain ⟨-, hprints, hclosed⟩ := literals_carry_any_text
  have hbody : Token.IsBody ['\\', '\\', '\\', 'q'] :=
    .escaped (by decide) (.escaped (by decide) .nil)
  have hunknown : ¬Token.EscapesKnown ['\\', '\\', '\\', 'q'] := by
    rintro (_ | ⟨hslash, -⟩ | ⟨-, _ | ⟨hslash, -⟩ | ⟨hq, -⟩⟩)
    · exact hslash rfl
    · exact hslash rfl
    · simp at hq
  refine ⟨hprints (start ⟨false, none⟩) "\"\\\n\t//" rfl rfl, ?_⟩
  exact (((hclosed _ hbody).2.2 hunknown).2 3).2

end Session

end DarjaLang
