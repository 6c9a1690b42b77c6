import DarjaLang.Proofs.Evaluation.Origin
import DarjaLang.Proofs.Grammar.Statement.Nodes
import DarjaLang.Proofs.Session.BlockStart

/-!
# The places of trouble

Whatever is wrong with a text that has more than ends of lines, and whatever goes wrong when it is
evaluated, stands at one of its tokens (`Statement.exists_token_of_run`).  There is always a token
to point at, because a statement never reads the end of its last line.
-/

set_option autoImplicit false

namespace DarjaLang

open Grammar

namespace Parser

variable {t : Token} {e : Complaint}

/-! ## Complaints -/

theorem position_unexpected (t : Token) (expected : String) :
    (ParseError.unexpected (some t) expected).position = t.position := by
  dsimp only [ParseError.unexpected]
  split
  · split <;> rfl
  all_goals rfl

theorem ExprComplaint.position_eq (h : ExprComplaint t e) : e.position = t.position := by
  cases h with
  | unexpected => exact position_unexpected t _
  | sentinel | nesting | unmatched => rfl

theorem StatementComplaint.position_eq (h : StatementComplaint t e) : e.position = t.position := by
  cases h with
  | expression h => exact h.position_eq
  | nesting | unterminated => rfl

theorem LineComplaint.position_eq (h : LineComplaint t e) : e.position = t.position := by
  cases h with
  | statement h => exact h.position_eq
  | trailing => rfl

end Parser

namespace Statement

/-- A complaint about a text stands at one of its tokens. -/
theorem exists_token_of_ofTokens? {text : String} {number : Nat}
    (hline : ¬LineEnds (Token.scan text number)) {e : Complaint}
    (h : ofTokens? (Token.scan text number) = .error e) :
    ∃ t ∈ Token.scan text number, t.position = e.position := by
  obtain ⟨stop, hopen⟩ := scan_openLine hline
  obtain ⟨⟨t, ht, hcomplaint⟩, -⟩ := ofTokens?_append_eq_error hopen.outside hopen.suffix h
  exact ⟨t, ht, hcomplaint.position_eq.symm⟩

/-! ## Evaluation -/

/-- What is to blame in a statement stands at a token that the statement has been read from. -/
theorem Blames.exists_token {st : Statement} {p : List Token} {trouble : Trouble}
    (h : st.Blames trouble) (hst : st.WrittenIn p)
    (hread : ∀ inner : Statement, inner.Part st → inner.IsValid) :
    ∃ t ∈ p, t.position = trouble.position := by
  cases h with
  | expression hinner he hblames =>
    obtain ⟨node, hnode, hposition, -⟩ := hblames
    obtain ⟨t, ht, hheads⟩ := (hst _ hinner).2 _ he node hnode
    exact ⟨t, ht, hheads.position.trans hposition.symm⟩
  | limit hinner => exact (hst _ hinner).1
  | unread hinner => exact absurd rfl (hread _ hinner _)

/-- **All trouble with a text stands at one of its tokens**, unless it has only ends of lines. -/
theorem exists_token_of_run {text : String} {number : Nat}
    (hline : ¬LineEnds (Token.scan text number)) {limit : Option UInt64} {bound : Nat}
    {s s' : State} {trouble : Trouble}
    (hrun : (ofTokens (Token.scan text number)).run limit bound s = some ⟨.error trouble, s'⟩) :
    ∃ t ∈ Token.scan text number, t.position = trouble.position := by
  cases hread : ofTokens? (Token.scan text number) with
  | error complaint =>
    rw [ofTokens_eq_invalid_iff.2 hread, run] at hrun
    cases hrun
    exact exists_token_of_ofTokens? hline hread
  | ok st =>
    rw [(ofTokens_valid_iff.2 hread).1] at hrun
    exact (blames_of_run hrun).exists_token (writtenIn_of_ofTokens? hread)
      fun inner => isValid_of_part hread

end Statement

end DarjaLang
