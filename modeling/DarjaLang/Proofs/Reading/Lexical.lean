import DarjaLang.Proofs.Reading.OpenBlock

/-!
# Error tokens are never read over

An error token is outside of every statement.  So a reader gets no further than to the first one,
and what is wrong in front of it or with it stays wrong whatever stands behind it.

* `Parser.LineComplaint.eq_lexical`: a complaint about an error token names the fault of the token.
* `Statement.ofTokens?_ne_ok_of_error`: a statement has no error token.
* `Statement.ofTokens?_of_error`: the complaint about a line is about its first error token or one
  in front of it.
-/

set_option autoImplicit false

namespace DarjaLang

open Grammar

/-- The fault of a character that starts no token.  A double quote stands for a faulty literal. -/
def LexicalError.ofCharacter (c : Char) : LexicalError :=
  if c = '"' then .invalidString else .unrecognizedCharacter c

variable {t err : Token} {c : Char} {e : Complaint} {before ts : List Token}

namespace Parser

theorem unexpected_of_error (ht : t.kind = .error c) (expected : String) :
    ParseError.unexpected (some t) expected = ⟨.lexical (.ofCharacter c), t.position⟩ := by
  rw [ParseError.unexpected, ht, LexicalError.ofCharacter]
  dsimp only
  split <;> rfl

theorem ExprComplaint.eq_lexical (h : ExprComplaint t e) (ht : t.kind = .error c) :
    e = ⟨.lexical (.ofCharacter c), t.position⟩ := by
  cases h with
  | unexpected => exact unexpected_of_error ht _
  | sentinel hk => rw [ht] at hk; cases hk
  | nesting hk => rw [ht] at hk; cases hk
  | unmatched hk => rw [ht] at hk; cases hk

/-- **A complaint about an error token names its fault.** -/
theorem LineComplaint.eq_lexical (h : LineComplaint t e) (ht : t.kind = .error c) :
    e = ⟨.lexical (.ofCharacter c), t.position⟩ := by
  cases h with
  | statement h => cases h with
    | expression h => exact h.eq_lexical ht
    | nesting hk => rw [ht] at hk; cases hk
    | unterminated hk => rw [ht] at hk; cases hk
  | trailing hk => exact absurd ht (hk c)

/-- An error token stops the skipping of ends of lines. -/
theorem openLine_of_error (hbefore : ∀ t ∈ before, t.kind ≠ .endOfInput)
    (herr : err.kind = .error c) : OpenLine err (skipLineEnds (before ++ [err])) := by
  obtain ⟨ends, hsplit, hends, -⟩ := exists_lineEnds (before ++ [err])
  have hsuffix : skipLineEnds (before ++ [err]) <:+ before ++ [err] := ⟨ends, hsplit.symm⟩
  refine ⟨by rw [herr]; rfl, ?_, fun t ht => ?_⟩
  · refine List.suffix_of_suffix_length_le (List.suffix_append _ _) hsuffix ?_
    rw [List.length_singleton, Nat.one_le_iff_ne_zero, Ne, List.length_eq_zero_iff]
    intro hnil
    rw [hnil, List.append_nil] at hsplit
    have hend := hends err (hsplit ▸ List.mem_append_right before (List.mem_singleton_self err))
    rw [herr] at hend
    cases hend
  · rcases List.mem_append.1 (hsuffix.subset ht) with ht | ht
    · exact hbefore t ht
    · rw [List.mem_singleton.1 ht, herr]
      nofun

end Parser

namespace Statement

/-- **No statement has an error token among its tokens.** -/
theorem ofTokens?_ne_ok_of_error (hts : ∀ t ∈ ts, t.kind ≠ .endOfInput) (hmem : err ∈ ts)
    (herr : err.kind = .error c) (s : Statement) : ofTokens? ts ≠ .ok s := by
  intro h
  obtain ⟨front, p, after, hsplit, hfront, hafter, hline⟩ := exists_isLine_of_ofTokens? h
  have hall := beforeInputEnd_append hts .nil
  rw [List.append_nil, hsplit] at hall
  rw [← hall, List.mem_append, List.mem_append] at hmem
  rcases hmem with (hmem | hmem) | hmem
  · have hend := hfront err hmem
    rw [herr] at hend
    cases hend
  · cases hline with
    | sentinel ht =>
      rw [← List.mem_singleton.1 hmem, herr] at ht
      cases ht
    | statement h =>
      have hin := h.wellBraced.inStatement err hmem
      rw [herr] at hin
      cases hin
  · have hend := hafter err hmem
    rw [herr] at hend
    cases hend

/-- **The first error token of a line is as far as the line is read.**  Something is wrong up to
there, it is not that a block is still open, and so it stays wrong. -/
theorem ofTokens?_of_error (hbefore : ∀ t ∈ before, t.kind ≠ .endOfInput)
    (herr : err.kind = .error c) (behind : List Token) :
    ∃ e, ofTokens? (before ++ err :: behind) = .error e ∧
      (∃ t ∈ before ++ [err], Parser.LineComplaint t e) ∧ e.cause ≠ .unterminatedBlock := by
  have hopen := Parser.openLine_of_error hbefore herr
  have hmem : err ∈ before ++ [err] := List.mem_append_right before (List.mem_singleton_self err)
  have hinput : ∀ t ∈ before ++ [err], t.kind ≠ .endOfInput := by
    simpa [or_imp, forall_and, herr] using hbefore
  cases h : ofTokens? (before ++ [err]) with
  | ok s => exact absurd h (ofTokens?_ne_ok_of_error hinput hmem herr s)
  | error e =>
    obtain ⟨hcomplaint, hstays⟩ := ofTokens?_append_eq_error hopen.outside hopen.suffix h
    -- a block that is still open could be closed behind the error token
    have hcause : e.cause ≠ .unterminatedBlock := fun hblock => by
      obtain ⟨hbalance, hcloses⟩ := ofTokens?_closing hopen h hblock
      have hclosers : Parser.ClosingBraces (Token.balance (before ++ [err]))
          (List.replicate (Token.balance (before ++ [err])).toNat
            ⟨.rightBrace, "\x7d", .unknown⟩) :=
        ⟨fun t ht => by rw [List.eq_of_mem_replicate ht], by rw [List.length_replicate]; omega⟩
      have hend : LineEnds [⟨.endOfLine, "", .unknown⟩] := List.forall_mem_singleton.2 rfl
      obtain ⟨s, hs⟩ := hcloses _ _ hclosers hend (List.cons_ne_nil _ _)
      refine ofTokens?_ne_ok_of_error (fun t ht => ?_) (List.mem_append_left _ hmem) herr s hs
      rcases List.mem_append.1 ht with ht | ht
      · exact hinput t ht
      rcases List.mem_append.1 ht with ht | ht
      · rw [hclosers.1 t ht]
        nofun
      · rw [hend t ht]
        nofun
    refine ⟨e, ?_, hcomplaint, hcause⟩
    simpa using hstays hcause behind

end Statement

end DarjaLang
