import DarjaLang.Proofs.Token.Lexed

/-!
# Where the tokens of a text stand

A text is its tokens with gaps between them, and no character is lost.

* `Token.IsGap`: blanks and comments, which stand in front of a token or behind the last one.
* `Lexed.exists_pieces`: what the rules read is covered by gaps and lexemes, and every token
  stands behind what is written in front of it.
* `scan_covers_text`: so it is for a scan, whose tokens follow each other and end as many lines as
  the text has.
-/

set_option autoImplicit false

namespace DarjaLang

namespace Token

/-! ## Gaps -/

/-- Blanks and comments in any order. -/
inductive IsGap : List Char → Prop
  | nil : IsGap []
  | blank {c : Char} {cs : List Char} : c ∈ [' ', '\t', '\r', '\x0c'] → IsGap cs → IsGap (c :: cs)
  | comment {body cs : List Char} : (∀ c ∈ body, c ≠ '\n' ∧ c ≠ '\r') → IsGap cs →
      IsGap ('/' :: '/' :: (body ++ cs))

theorem IsGap.append {cs ds : List Char} (h : IsGap cs) (hds : IsGap ds) : IsGap (cs ++ ds) := by
  induction h with
  | nil => exact hds
  | blank hc _ ih => exact .blank hc ih
  | comment hbody _ ih =>
    rw [List.cons_append, List.cons_append, List.append_assoc]
    exact .comment hbody ih

theorem IsGap.newline_not_mem {cs : List Char} (h : IsGap cs) : '\n' ∉ cs := by
  induction h with
  | nil => exact List.not_mem_nil
  | blank hc _ ih =>
    rw [List.mem_cons, not_or]
    exact ⟨fun heq => absurd (heq ▸ hc) (by decide), ih⟩
  | comment hbody _ ih => simpa [ih] using fun hmem => (hbody _ hmem).1 rfl

theorem isGap_of_blanks {cs : List Char} (h : ∀ c ∈ cs, isBlank c) : IsGap cs := by
  induction cs with
  | nil => exact .nil
  | cons c cs ih =>
    obtain ⟨hc, hcs⟩ := List.forall_mem_cons.1 h
    exact .blank (by simpa using isBlank_iff.1 hc) (ih hcs)

/-- What the rules take for nothing is a gap. -/
theorem Taken.isGap {p rest : List Char} (h : Taken none p rest) : IsGap p := by
  obtain ⟨hrule, -⟩ | - | - := h
  cases hrule with
  | blanks _ hall => exact isGap_of_blanks hall
  | comment hall => simpa using IsGap.comment hall .nil

/-! ## Ends of lines -/

/-- The token ends a line. -/
def endsLine (t : Token) : Bool :=
  match t.kind with
  | .endOfLine => true
  | _ => false

theorem endsLine_iff {t : Token} : t.endsLine = true ↔ t.kind = .endOfLine := by
  unfold endsLine
  split <;> simp_all

theorem literalKind_ne_endOfLine (body : List Char) : literalKind body ≠ .endOfLine := by
  rw [literalKind]
  split <;> simp

theorem wordKind_ne_endOfLine (word : String) : wordKind word ≠ .endOfLine := by
  intro h
  have hend := wordKind_isTerminator word
  rw [h] at hend
  cases hend

theorem Rule.eq_of_endOfLine {p : List Char} (h : Rule (some .endOfLine) p) : p = ['\n'] := by
  generalize hkind : some Kind.endOfLine = kind at h
  cases h with
  | newline => rfl
  | word => exact absurd (Option.some.inj hkind).symm (wordKind_ne_endOfLine _)
  | literal => exact absurd (Option.some.inj hkind).symm (literalKind_ne_endOfLine _)
  | symbol hsymbol =>
    cases hkind
    cases hsymbol
  | blanks | comment | integer | float => cases hkind

/-- A line is ended by a newline and by nothing else. -/
theorem Taken.endOfLine_iff {kind : Kind} {p rest : List Char} (h : Taken (some kind) p rest) :
    kind = .endOfLine ↔ '\n' ∈ p := by
  refine ⟨?_, fun hmem => Option.some.inj (h.eq_newline hmem).1⟩
  rintro rfl
  obtain h | - | - := h
  rw [h.rule.eq_of_endOfLine]
  exact List.mem_singleton_self _

theorem Lexed.endOfLine_of_mem {place : Position} {cs : List Char} {ts : List Token}
    (h : Lexed place cs ts) {t : Token} (ht : t ∈ ts) (hmem : '\n' ∈ t.lexeme.toList) :
    t.kind = .endOfLine := by
  induction h with
  | done => cases ht
  | gap _ _ ih => exact ih ht
  | token hp _ ih =>
    rcases List.mem_cons.1 ht with rfl | ht
    · exact hp.endOfLine_iff.2 (by simpa using hmem)
    · exact ih ht

/-- Every newline ends a line. -/
theorem Lexed.countP_endsLine {place : Position} {cs : List Char} {ts : List Token}
    (h : Lexed place cs ts) : ts.countP endsLine = cs.count '\n' := by
  induction h with
  | done => rfl
  | gap hp _ ih =>
    rw [ih, List.count_append, List.count_eq_zero.2 hp.isGap.newline_not_mem, Nat.zero_add]
  | @token place kind p rest ts hp _ ih =>
    rw [List.countP_cons, ih, List.count_append, Nat.add_comm]
    refine congrArg (· + rest.count '\n') ?_
    by_cases hmem : '\n' ∈ p
    · rw [if_pos (endsLine_iff.2 (hp.endOfLine_iff.2 hmem)), (hp.eq_newline hmem).2]
      rfl
    · rw [if_neg (fun hend => hmem (hp.endOfLine_iff.1 (endsLine_iff.1 hend))),
        List.count_eq_zero.2 hmem]

/-! ## The order of tokens -/

/-- The tokens stand one behind the other, from the beginning of the text to its end. -/
theorem Lexed.pairwise_before {place : Position} {cs : List Char} {ts : List Token}
    (h : Lexed place cs ts) :
    ts.Pairwise (·.position.Before ·.position) ∧
      ∀ t ∈ ts, (t.position = place ∨ place.Before t.position) ∧
        t.position.Before (place.after cs) := by
  induction h with
  | done => exact ⟨.nil, nofun⟩
  | @gap place p rest ts hp _ ih =>
    have hplace := Position.before_after hp.ne_nil place
    refine ⟨ih.1, fun t ht => ?_⟩
    rw [Position.after_append]
    obtain ⟨hfront, hend⟩ := ih.2 t ht
    refine ⟨.inr ?_, hend⟩
    rcases hfront with heq | hfront
    · rwa [heq]
    · exact hplace.trans hfront
  | @token place kind p rest ts hp hrest ih =>
    have hplace := Position.before_after hp.ne_nil place
    have hend := Position.before_after (List.append_ne_nil_of_left_ne_nil hp.ne_nil rest) place
    have hlater : ∀ t ∈ ts, place.Before t.position := fun t ht => by
      rcases (ih.2 t ht).1 with heq | hfront
      · rwa [heq]
      · exact hplace.trans hfront
    rw [Position.after_append] at hend ⊢
    refine ⟨List.pairwise_cons.2 ⟨hlater, ih.1⟩, fun t ht => ?_⟩
    rcases List.mem_cons.1 ht with rfl | ht
    · exact ⟨.inl rfl, hend⟩
    · exact ⟨.inr (hlater t ht), (ih.2 t ht).2⟩

/-! ## Gaps and lexemes -/

/-- What gaps and the tokens behind them are written with. -/
def written (pieces : List (List Char × Token)) : List Char :=
  pieces.flatMap fun piece => piece.1 ++ piece.2.lexeme.toList

/-- Every token stands behind what is written in front of it. -/
def Placed (first : Position) (pieces : List (List Char × Token)) : Prop :=
  ∀ before gap t behind, pieces = before ++ (gap, t) :: behind →
    t.position = first.after (written before ++ gap)

theorem Placed.cons {first : Position} {gap : List Char} {t : Token}
    {pieces : List (List Char × Token)} (ht : t.position = first.after gap)
    (h : Placed (first.after (gap ++ t.lexeme.toList)) pieces) :
    Placed first ((gap, t) :: pieces) := by
  intro before gap' t' behind heq
  rcases before with _ | ⟨piece, before⟩
  · cases heq
    exact ht
  · obtain ⟨rfl, hpieces⟩ := List.cons.inj heq
    rw [h before gap' t' behind hpieces, ← Position.after_append]
    simp [written]

/-- What is read is covered by gaps and lexemes.  A gap that stands in front of it and a token
without characters behind it are taken in as well. -/
theorem Lexed.exists_pieces {place : Position} {cs : List Char} {ts : List Token}
    (h : Lexed place cs ts) {ends : List Token}
    (hends : ∀ stop ∈ ends, stop.lexeme = "" ∧ stop.position = place.after cs)
    (hlength : ends.length ≤ 1) {first : Position} {gap : List Char} (hgap : IsGap gap)
    (hplace : place = first.after gap) :
    ∃ pieces last, pieces.map Prod.snd = ts ++ ends ∧ gap ++ cs = written pieces ++ last ∧
      (∀ g ∈ pieces.map Prod.fst ++ [last], IsGap g) ∧ Placed first pieces := by
  induction h generalizing first gap with
  | done =>
    rcases ends with _ | ⟨stop, _ | ⟨_, _⟩⟩
    · exact ⟨[], gap, rfl, by simp [written], by simpa using hgap, by simp [Placed]⟩
    · obtain ⟨hstop, hposition⟩ := hends stop (List.mem_singleton_self _)
      refine ⟨[(gap, stop)], [], rfl, by simp [written, hstop], ?_, ?_⟩
      · simpa using ⟨hgap, IsGap.nil⟩
      · exact .cons (hposition.trans hplace) (by simp [Placed])
    · simp at hlength
  | @gap place p rest ts hp _ ih =>
    rw [← List.append_assoc]
    rw [Position.after_append] at hends
    exact ih hends (hgap.append hp.isGap) (by rw [hplace, Position.after_append])
  | @token place kind p rest ts hp _ ih =>
    rw [Position.after_append] at hends
    have hfirst : place.after p = (place.after p).after [] := rfl
    obtain ⟨pieces, last, hts, hcs, hgaps, hplaced⟩ := ih hends .nil hfirst
    refine ⟨(gap, ⟨kind, String.ofList p, place⟩) :: pieces, last, ?_, ?_, ?_, ?_⟩
    · simp [hts]
    · rw [List.nil_append] at hcs
      simp [written, hcs]
    · simpa using ⟨hgap, by simpa using hgaps⟩
    · refine .cons hplace ?_
      rwa [String.toList_ofList, Position.after_append, ← hplace]

/-! ## The tokens of a text -/

/-- The tokens of a text are those the rules find, and an open end unless it ends with a newline. -/
theorem exists_lexed (text : String) (line : Nat) :
    ∃ ts ends, scan text line = ts ++ ends ∧ Lexed ⟨line, 1⟩ text.toList ts ∧
      ends.length = (if text.toList.getLast? = some '\n' then 0 else 1) ∧
      ∀ stop ∈ ends, stop = ⟨.endOfLine, "", .behind line text.toList⟩ := by
  refine ⟨_, _, scan_eq text line, lexed_scanUnended line [] text.toList List.not_mem_nil, ?_, ?_⟩
  · split <;> rfl
  · split <;> simp

/-- **The scan loses nothing.**  Its tokens and the gaps between them are the text, and each token
stands behind the newlines and the characters that are written in front of it.  Tokens follow each
other, only the ends of lines hold newlines, the last token is one, and there are as many as there
are lines. -/
theorem scan_covers_text (text : String) (line : Nat) :
    ∃ pieces last, pieces.map Prod.snd = scan text line ∧
      text.toList = written pieces ++ last ∧
      (∀ gap ∈ pieces.map Prod.fst ++ [last], IsGap gap ∧ '\n' ∉ gap) ∧
      (∀ before gap t behind, pieces = before ++ (gap, t) :: behind →
        t.position = .behind line (written before ++ gap)) ∧
      (scan text line).Pairwise (·.position.Before ·.position) ∧
      (∀ t ∈ scan text line, '\n' ∈ t.lexeme.toList → t.kind = .endOfLine) ∧
      (∃ before stop, scan text line = before ++ [stop] ∧ stop.kind = .endOfLine) ∧
      (scan text line).countP endsLine =
        newlines text + if text.toList.getLast? = some '\n' then 0 else 1 := by
  obtain ⟨ts, ends, hscan, hlexed, hlength, hends⟩ := exists_lexed text line
  have hplace : ∀ stop ∈ ends, stop.lexeme = "" ∧
      stop.position = (⟨line, 1⟩ : Position).after text.toList := fun stop hstop => by
    rw [hends stop hstop, Position.after_eq_behind]
    exact ⟨rfl, rfl⟩
  have hone : ends.length ≤ 1 := by
    rw [hlength]
    split <;> simp
  obtain ⟨pieces, last, hpieces, htext, hgaps, hplaced⟩ :=
    hlexed.exists_pieces hplace hone .nil (Position.after_nil _).symm
  obtain ⟨hpairwise, hend⟩ := hlexed.pairwise_before
  refine ⟨pieces, last, hpieces.trans hscan.symm, htext,
    fun gap hgap => ⟨hgaps gap hgap, (hgaps gap hgap).newline_not_mem⟩,
    fun before gap t behind heq => ?_, ?_, fun t ht hmem => ?_, exists_scan_eq_concat text line, ?_⟩
  · rw [hplaced before gap t behind heq, Position.after_eq_behind]
  · rw [hscan, List.pairwise_append]
    refine ⟨hpairwise, ?_, fun t ht stop hstop => (hplace stop hstop).2 ▸ (hend t ht).2⟩
    rcases ends with _ | ⟨stop, _ | ⟨_, _⟩⟩
    · exact .nil
    · exact List.pairwise_singleton _ _
    · simp at hone
  · rw [hscan] at ht
    rcases List.mem_append.1 ht with ht | ht
    · exact hlexed.endOfLine_of_mem ht hmem
    · rw [hends t ht]
  · have hstops : ends.countP endsLine = ends.length :=
      List.countP_eq_length.2 fun stop hstop => by rw [hends stop hstop]; rfl
    rw [hscan, List.countP_append, hlexed.countP_endsLine, hstops, hlength, newlines]

end Token

end DarjaLang
