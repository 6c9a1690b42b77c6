import DarjaLang.Proofs.Evaluation.Place
import DarjaLang.Proofs.Reading.Lexical
import DarjaLang.Proofs.Session.Working
import DarjaLang.Proofs.Token.Layout

/-!
# Lines with lexical errors

A text with an error token is never a statement, and the complaint about it stands at its first
error token or in front of that.  A session reports such a line at once and keeps nothing of it.

* `Token.pairwise_before_scan`: the places of tokens tell which one comes first.
* `Statement.complaint_of_error`: what is said about a text with an error token.
* `Session.feedLine_of_complaint`: what a session makes of such a line.
* `Session.lexical_error_reported` puts this together.
-/

set_option autoImplicit false

namespace DarjaLang

open Grammar

variable {text : String} {number : ℕ} {before behind : List Token} {err : Token} {c : Char}

/-! ## Reading the line -/

/-- The tokens of a text stand one behind the other. -/
theorem Token.pairwise_before_scan (text : String) (number : ℕ) :
    (scan text number).Pairwise (·.position.Before ·.position) := by
  obtain ⟨ts, ends, hscan, hlexed, hlength, hends⟩ := exists_lexed text number
  obtain ⟨hpairwise, hend⟩ := hlexed.pairwise_before
  rw [hscan, List.pairwise_append]
  refine ⟨hpairwise, ?_, fun t ht stop hstop => ?_⟩
  · rcases ends with _ | ⟨stop, _ | ⟨_, _⟩⟩
    · exact .nil
    · exact List.pairwise_singleton _ _
    · split at hlength <;> simp at hlength
  · rw [hends stop hstop, ← Position.after_eq_behind]
    exact (hend t ht).2

theorem Token.category_eq_invalid_iff {kind : Kind} :
    kind.category = .invalid ↔ ∃ c, kind = .error c := by
  cases kind <;> simp [Kind.category]

/-- A text with an error token has a first one. -/
theorem Token.exists_first_error {ts : List Token} (h : ∃ t ∈ ts, ∃ c, t.kind = .error c) :
    ∃ before err behind c, ts = before ++ err :: behind ∧ err.kind = .error c ∧
      ∀ t ∈ before, ∀ d, t.kind ≠ .error d := by
  obtain ⟨t, ht, hkind⟩ := h
  have hfind : (ts.find? fun t => t.kind.category = .invalid).isSome = true := by
    rw [List.find?_isSome]
    exact ⟨t, ht, decide_eq_true (category_eq_invalid_iff.2 hkind)⟩
  obtain ⟨err, herr⟩ := Option.isSome_iff_exists.1 hfind
  obtain ⟨hinvalid, before, behind, hts, hbefore⟩ := List.find?_eq_some_iff_append.1 herr
  obtain ⟨c, hc⟩ := category_eq_invalid_iff.1 (of_decide_eq_true hinvalid)
  refine ⟨before, err, behind, c, hts, hc, fun t ht d hd => ?_⟩
  have hvalid := hbefore t ht
  simp [category_eq_invalid_iff, hd] at hvalid

namespace Statement

/-- **The complaint about a text with an error token** stands at the first one and names its fault,
or it stands in front of it. -/
theorem complaint_of_error (hscan : Token.scan text number = before ++ err :: behind)
    (herr : err.kind = .error c) :
    ∃ e, ofTokens? (Token.scan text number) = .error e ∧ e.cause ≠ .unterminatedBlock ∧
      (e.position.Before err.position ∨ e = ⟨.lexical (.ofCharacter c), err.position⟩) := by
  have hinput : ∀ t ∈ before, t.kind ≠ .endOfInput := fun t ht =>
    Token.kind_ne_endOfInput_of_mem_scan (hscan ▸ List.mem_append_left _ ht)
  obtain ⟨e, he, ⟨t, ht, hcomplaint⟩, hcause⟩ := ofTokens?_of_error hinput herr behind
  have horder := Token.pairwise_before_scan text number
  rw [hscan] at horder ⊢
  refine ⟨e, he, hcause, ?_⟩
  rcases List.mem_append.1 ht with ht | ht
  · have hbefore := (List.pairwise_append.1 horder).2.2 t ht err List.mem_cons_self
    rw [← hcomplaint.position_eq] at hbefore
    exact .inl hbefore
  · obtain rfl := List.mem_singleton.1 ht
    exact .inr (hcomplaint.eq_lexical herr)

end Statement

/-! ## The session -/

namespace Session

variable {s : Session} {line : String} {bound : ℕ} {sink : Sink} {e : Complaint}

/-- The session after a line that it has only complained about. -/
def complained (s : Session) : Session := { s.counted with diagnostics := s.diagnostics + 1 }

/-- A line that is no statement, for another reason than an open block, is reported at once. -/
theorem feedLine_of_complaint (hended : s.hasEnded = false) (hpending : s.pending = none)
    (hline : (Token.scan line (s.line + 1)).all Token.isTerminator = false)
    (hread : Statement.ofTokens? (Token.scan line (s.line + 1)) = .error e)
    (hcause : e.cause ≠ .unterminatedBlock) :
    s.feedLine bound line sink =
      some ((s.counted.report (e.map .unparsed) sink).andThen settle) := by
  have hblock : PendingBlock.ofLine? line (s.line + 1) (Token.scan line (s.line + 1)) = none := by
    rw [PendingBlock.ofLine?, hread]
    split
    · next h => cases h; exact absurd rfl hcause
    · rfl
  rw [feedLine_of_statement hended hpending hline hblock, execute,
    ofTokens_eq_invalid_iff.2 hread, Statement.run]
  rfl

/-- Only the diagnostic is counted, whatever the sink makes of it. -/
theorem session_report_settle (trouble : Trouble) :
    ((s.counted.report trouble sink).andThen settle).session = s.complained := by
  rw [Answer.andThen]
  split <;> rfl

theorem tells_report_settle (s : Session) (trouble : Trouble) :
    Tells (fun sink => (s.counted.report trouble sink).andThen settle) s.complained
      [.diagnostic trouble] 1 :=
  (tells_report s.counted trouble).andThen (tells_settle s.complained)

/-- **A line with a lexical error is never parsed over.**  It is no statement, and the complaint
about it does not stand behind its first error token; if it stands at the token, it is about the
lexical error.  A session that is collecting no block reports the complaint, whatever becomes of the
report, and is otherwise as if the line had been blank. -/
theorem lexical_error_reported (text : String) (number : ℕ)
    (h : ∃ t ∈ Token.scan text number, ∃ c, t.kind = .error c) :
    ∃ before err behind c e, Token.scan text number = before ++ err :: behind ∧
      err.kind = .error c ∧ (∀ t ∈ before, ∀ d, t.kind ≠ .error d) ∧
      Statement.ofTokens (Token.scan text number) = .invalid e ∧
      ¬err.position.Before e.position ∧
      (e.position = err.position →
        e.cause = .lexical (if c = '"' then .invalidString else .unrecognizedCharacter c)) ∧
      ∀ s : Session, s.hasEnded = false → s.pending = none → s.line + 1 = number →
        (∀ bound sink, ∃ a, s.feedLine bound text sink = some a ∧ a.session = s.complained) ∧
        s.Writes text [.diagnostic (e.map .unparsed)] s.complained := by
  obtain ⟨before, err, behind, c, hscan, herr, hbefore⟩ := Token.exists_first_error h
  obtain ⟨e, hread, hcause, hplace⟩ := Statement.complaint_of_error hscan herr
  refine ⟨before, err, behind, c, e, hscan, herr, hbefore, ofTokens_eq_invalid_iff.2 hread,
    fun hbehind => ?_, fun hsame => ?_, ?_⟩
  · rcases hplace with hfront | rfl
    · exact Position.not_before_self _ (hfront.trans hbehind)
    · exact Position.not_before_self _ hbehind
  · rcases hplace with hfront | rfl
    · exact absurd (hsame ▸ hfront) (Position.not_before_self _)
    · rfl
  · rintro s hended hpending rfl
    have hline : (Token.scan text (s.line + 1)).all Token.isTerminator = false := by
      rw [hscan, List.all_append, List.all_cons, Token.isTerminator, herr]
      simp [Token.Kind.isTerminator]
    have hfeed : ∀ bound sink, s.feedLine bound text sink =
        some ((s.counted.report (e.map .unparsed) sink).andThen settle) :=
      fun _ _ => feedLine_of_complaint hended hpending hline hread hcause
    refine ⟨fun bound sink => ⟨_, hfeed bound sink, session_report_settle _⟩, 0, 1,
      fun sink hsink => ?_⟩
    rw [hfeed]
    exact congrArg some (tells_report_settle s _ sink hsink)

/-- A parenthesis is still open when the stray character is found behind it. -/
theorem lexical_error_reported_in_parentheses :
    (∃ t ∈ Token.scan "x = (@" 1, ∃ c, t.kind = .error c) ∧
      (start ⟨true, none⟩).Writes "x = (@"
        [.diagnostic ⟨.unparsed (.lexical (.unrecognizedCharacter '@')), ⟨1, 6⟩⟩]
        (start ⟨true, none⟩).complained := by
  have herror : ∃ t ∈ Token.scan "x = (@" 1, ∃ c, t.kind = .error c :=
    ⟨⟨.error '@', "@", ⟨1, 6⟩⟩, List.mem_of_getElem? (i := 3) rfl, '@', rfl⟩
  have hread : Statement.ofTokens (Token.scan "x = (@" 1) =
      .invalid ⟨.lexical (.unrecognizedCharacter '@'), ⟨1, 6⟩⟩ := by
    rw [ofTokens_eq_invalid_iff]
    cbv
  obtain ⟨-, -, -, -, e, -, -, -, hinvalid, -, -, hsession⟩ :=
    lexical_error_reported "x = (@" 1 herror
  obtain rfl := Statement.invalid.inj (hread.symm.trans hinvalid)
  exact ⟨herror, (hsession (start ⟨true, none⟩) rfl rfl rfl).2⟩

end Session

end DarjaLang
