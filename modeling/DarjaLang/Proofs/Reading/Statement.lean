import DarjaLang.Proofs.Grammar.Statement.Soundness
import DarjaLang.Proofs.Reading.Expression

/-!
# Statements are read locally

What holds of expressions holds of statements: up to a token that no statement contains, or only
behind the statements of a block, the parser does not look at what comes behind.  Here the
exception matters: a block that is still open is complained about only because the tokens run out.

* `StatementComplaint t e` says that the complaint `e` about a statement is about the token `t`.
* `local_statement` is the result, by recursion on the levels of nesting that are left.
-/

set_option autoImplicit false

namespace DarjaLang

open Grammar

namespace Parser

/-- The kinds of tokens that no statement contains, or only at the end of a line in a block. -/
def outsideStatement : Token.Kind → Bool
  | .endOfLine | .endOfInput | .comment | .ignored | .error _ => true
  | _ => false

theorem inExpression_of_outsideStatement {k : Token.Kind} (h : outsideStatement k = true) :
    inExpression k = false := by
  cases k <;> first | rfl | cases h

/-- What is complained about a token in a statement. -/
inductive StatementComplaint (t : Token) : Complaint → Prop
  | expression {e : Complaint} (h : ExprComplaint t e) : StatementComplaint t e
  | nesting (ht : t.kind = .leftBrace) : StatementComplaint t ⟨.nestingTooDeep, t.position⟩
  | unterminated (ht : t.kind = .leftBrace) : StatementComplaint t (unterminated t.position)

theorem StatementComplaint.unexpected {t : Token} {expected : String}
    (h : expected ∈ expectations) :
    StatementComplaint t (ParseError.unexpected (some t) expected) :=
  .expression (.unexpected h)

variable {α : Type} {stop : Token} {seen : Token → Prop} {levels d : Nat}

/-- A token of a statement is not `stop`. -/
theorem suffix_of_outsideStatement (hstop : outsideStatement stop.kind = true) {t : Token}
    {ts : List Token} (ht : outsideStatement t.kind = false) (hts : [stop] <:+ t :: ts) :
    [stop] <:+ ts :=
  suffix_of_suffix_cons hts fun h => by rw [h, hstop] at ht; cases ht

theorem local_expression (hstop : outsideStatement stop.kind = true) :
    Local StatementComplaint stop (expression levels).run :=
  have h : Local ExprComplaint stop (Level.disjunction.parser levels).run :=
    local_level (inExpression_of_outsideStatement hstop) levels .disjunction
  h.mono fun _ _ => .expression

/-! ## Blocks -/

section Block

variable {item : Parser Statement} {o : Token}

/-- More tokens may settle that a block is still open. -/
theorem LocalAt.stillOpen {f : List Token → Reading (α × List Token)} {ts : List Token}
    (ho : o.kind = .leftBrace) (hseen : seen o) (h : f ts = .error (unterminated o.position)) :
    LocalAt StatementComplaint stop seen f ts where
  ok hok := by rw [h] at hok; cases hok
  error he := by
    rw [h] at he
    cases he
    exact ⟨⟨o, .inl hseen, .unterminated ho⟩, fun hne => absurd rfl hne⟩

/-- What is left when ends of lines have been skipped does not start with one. -/
theorem kind_ne_of_skipLineEnds {ts behind : List Token} {t : Token}
    (h : skipLineEnds ts = t :: behind) : t.kind ≠ .endOfLine := by
  induction ts with
  | nil => cases h
  | cons u ts ih =>
    by_cases hu : u.kind = .endOfLine
    · have hends : LineEnds [u] := fun v hv => by rw [List.mem_singleton.1 hv, hu]
      rw [← List.singleton_append, skipLineEnds_append hends] at h
      exact ih h
    · rw [skipLineEnds_of_ne hu] at h
      cases h
      exact hu

/-- A sentinel in a block is complained about where it stands. -/
theorem checkNested_complaint (hread : Reads item (IsLine d)) {t : Token}
    {ts rest : List Token} {s : Statement} {e : Complaint}
    (hrun : item.run (t :: ts) = .ok (s, rest)) (h : checkNested s = .error e) :
    StatementComplaint t e := by
  cases s with
  | termination position =>
    cases h
    obtain ⟨used, hts, hline⟩ := hread hrun
    cases hline with
    | sentinel ht =>
      cases hts
      exact .expression (.sentinel ht)
    | statement hs => cases hs
  | _ => cases h

/-- What follows a statement of a block decides whether the block goes on. -/
theorem localAt_follower {f : List Token → Reading (α × List Token)} (ho : o.kind = .leftBrace)
    (hseen : seen o) {ts : List Token} (hts : [stop] <:+ ts)
    (hf : LocalAt StatementComplaint stop seen f ts) :
    LocalAt StatementComplaint stop seen
      (fun us => checkFollower o.position us >>= fun _ => f us) ts := by
  obtain ⟨t, behind, rfl⟩ := exists_cons_of_suffix hts
  by_cases hnext : t.kind = .endOfLine ∨ t.kind = .rightBrace
  · refine .head (fun us => ?_) (hf.know fun _ => .inl)
    dsimp only [checkFollower]
    rcases hnext with ht | ht <;> rw [ht] <;> rfl
  by_cases hinput : t.kind = .endOfInput
  · refine .stillOpen ho hseen ?_
    dsimp only [checkFollower]
    rw [hinput]
    rfl
  · refine .head (g := fun _ => .error (ParseError.unexpected (some t) "end of line or '\x7d'"))
      (fun us => ?_) (.fail (.inr rfl) (.unexpected (by decide)))
    rw [not_or] at hnext
    dsimp only [checkFollower]
    split
    · next ht => exact absurd ht hnext.1
    · next ht => exact absurd ht hnext.2
    · next ht => exact absurd ht hinput
    · rfl

/-- A block goes on from statement to statement, and `stop` at most ends the line of one. -/
theorem localAt_blockFrom (hstop : outsideStatement stop.kind = true)
    (hread : Reads item (IsLine d)) (hitem : Local StatementComplaint stop item.run)
    (ho : o.kind = .leftBrace) (hseen : seen o) {ts : List Token} (hts : [stop] <:+ ts) :
    LocalAt StatementComplaint stop seen (blockFrom item o.position) ts := by
  induction hlength : ts.length using Nat.strongRecOn generalizing ts seen with
  | ind length ih =>
    obtain ⟨ends, hsplit, hends, -⟩ := exists_lineEnds ts
    cases hskip : skipLineEnds ts with
    | nil =>
      refine .stillOpen ho hseen ?_
      rw [blockFrom_eq, hskip]
    | cons t behind =>
      have hle := length_skipLineEnds_le ts
      rw [hskip] at hsplit hle
      have hts' : [stop] <:+ t :: behind :=
        List.suffix_of_suffix_length_le hts ⟨ends, hsplit.symm⟩ (by simp)
      have hfirst : LocalAt StatementComplaint stop (fun u => seen u ∨ u ∈ ends)
          (blockFrom item o.position) (t :: behind) := by
        have hne := kind_ne_of_skipLineEnds hskip
        by_cases hclose : t.kind = .rightBrace
        · have hbehind := suffix_of_outsideStatement hstop (by rw [hclose]; rfl) hts'
          exact .cons (fun us => blockFrom_of_rightBrace hclose us) (.pure hbehind [])
        by_cases hinput : t.kind = .endOfInput
        · refine .stillOpen ho (.inl hseen) ?_
          rw [blockFrom_eq, skipLineEnds_of_ne hne]
          dsimp only
          rw [hinput]
        refine .head (g := fun us => item.run us >>= fun r => checkNested r.1 >>= fun s =>
            checkFollower o.position r.2 >>= fun _ =>
              blockFrom item o.position r.2 >>= fun r => .ok (s :: r.1, r.2))
          (blockFrom_cons_of_ne hne hclose hinput) ((hitem hts').bind fun s rest hrun hrest => ?_)
        have hlt := item.consumes hrun
        refine .lift (t := t) ?_ (fun e he => checkNested_complaint hread hrun he) fun s' _ => ?_
        · exact .inr rfl
        refine localAt_follower ho (.inl (.inl hseen)) hrest ?_
        exact (ih _ (by omega) (.inl (.inl hseen)) hrest rfl).bind
          fun ss _ _ hlast => .pure hlast (s' :: ss)
      rw [hsplit]
      exact hfirst.drop fun us => blockFrom_append hends _

theorem local_block (hstop : outsideStatement stop.kind = true)
    (hin : ∀ k, levels = k + 1 → Reads (statement k) (IsLine (d + 1)) ∧
      Local StatementComplaint stop (statement k).run) :
    Local StatementComplaint stop (block levels).run := by
  intro ts hts seen
  obtain ⟨o, behind, rfl⟩ := exists_cons_of_suffix hts
  by_cases ho : o.kind = .leftBrace
  · have hbehind := suffix_of_outsideStatement hstop (by rw [ho]; rfl) hts
    refine .cons (g := fun us => deeper (innerStatement levels) o.position >>= fun item =>
        blockFrom item o.position us) (fun us => ?_) (.lift (t := o) ?_ (fun e he => ?_) ?_)
    · dsimp only [block, blockAround]
      rw [ho]
    · exact .inr rfl
    · rw [deeper_eq_error he]
      exact .nesting ho
    · intro item hitem
      cases levels with
      | zero => cases hitem
      | succ k =>
        cases hitem
        exact localAt_blockFrom hstop (hin k rfl).1 (hin k rfl).2 ho (.inr rfl) hbehind
  · refine .head (g := fun _ => .error (ParseError.unexpected (some o) "'\x7b'")) (fun us => ?_)
      (.fail (.inr rfl) (.unexpected (by decide)))
    dsimp only [block, blockAround]
    split
    · contradiction
    · rfl

end Block

/-! ## Statements -/

section Statement

variable {C : Token → Complaint → Prop} {expr : Parser Expr} {block : Parser (List Statement)}

theorem local_guarded (hexpr : Local StatementComplaint stop expr.run)
    (hblock : Local StatementComplaint stop block.run) :
    Local StatementComplaint stop (guarded expr block).run := by
  intro ts hts _
  refine (hexpr hts).bind fun condition _ _ hbehind => ?_
  exact (hblock hbehind).bind fun body _ _ hrest => .pure hrest (condition, body)

/-- The further branches of a conditional are told apart by two tokens, neither of them `stop`. -/
theorem local_alternatives {branch : Parser (Expr × List Statement)}
    (hstop : outsideStatement stop.kind = true) (hbranch : Local StatementComplaint stop branch.run)
    (hblock : Local StatementComplaint stop block.run) :
    Local StatementComplaint stop (alternatives branch block) := by
  intro ts hts seen
  induction hlength : ts.length using Nat.strongRecOn generalizing ts seen with
  | ind length ih =>
    obtain ⟨w, behind, rfl⟩ := exists_cons_of_suffix hts
    by_cases hw : w.kind = .keyword .wila
    · have hts' := suffix_of_outsideStatement hstop (by rw [hw]; rfl) hts
      obtain ⟨i, behind, rfl⟩ := exists_cons_of_suffix hts'
      by_cases hi : i.kind = .keyword .ila
      · have hbehind := suffix_of_outsideStatement hstop (by rw [hi]; rfl) hts'
        refine .drop (p := [w, i]) (g := fun us => branch.run us >>= fun r =>
            alternatives branch block r.2 >>= fun r' =>
              .ok ((r.1 :: r'.1.1, r'.1.2), r'.2)) (fun us => ?_) ?_
        · rw [List.cons_append, List.singleton_append, alternatives_cons, hw]
          dsimp only
          rw [hi]
          rfl
        refine (hbranch hbehind).bind fun b rest hrun hrest => ?_
        have hlt : rest.length < length := by
          have := branch.consumes hrun
          simp only [List.length_cons] at hlength
          omega
        dsimp only
        refine (ih _ hlt hrest rfl).bind fun r _ _ hlast => ?_
        exact .pure hlast (b :: r.1, r.2)
      · refine .drop (p := [w]) (g := fun us => block.run us >>= fun r => .ok (([], some r.1), r.2))
          (fun ys => ?_) ?_
        · rw [List.singleton_append, List.cons_append, alternatives_cons, hw]
          dsimp only
          split
          · contradiction
          · rfl
        exact (hblock hts').bind fun body _ _ hlast => .pure hlast ([], some body)
    · refine .head (g := fun us => .ok (([], none), us)) (fun us => ?_) (.pure hts _)
      rw [alternatives_cons]
      split
      · contradiction
      · rfl

theorem local_conditional (hstop : outsideStatement stop.kind = true)
    (hexpr : Local StatementComplaint stop expr.run)
    (hblock : Local StatementComplaint stop block.run) (position : Position) :
    Local StatementComplaint stop (conditional expr block position).run := by
  have hguarded := local_guarded hexpr hblock
  intro ts hts _
  refine (hguarded hts).bind fun b _ _ hbehind => ?_
  refine (local_alternatives hstop hguarded hblock hbehind).bind fun r _ _ hrest => ?_
  exact .pure hrest (Statement.conditional (b :: r.1) r.2 position)

theorem local_loop (hexpr : Local StatementComplaint stop expr.run)
    (hblock : Local StatementComplaint stop block.run) (position : Position) :
    Local StatementComplaint stop (loop expr block position).run := by
  intro ts hts _
  refine (local_guarded hexpr hblock hts).bind fun b _ _ hrest => ?_
  exact .pure hrest (Statement.loop b.1 b.2 position)

theorem local_print (hstop : outsideStatement stop.kind = true) (hexpr : Local C stop expr.run)
    (position : Position) : Local C stop (print expr position).run := by
  have hlist : Local C stop (separated expr).run :=
    local_separated hexpr fun h => by rw [h] at hstop; cases hstop
  intro ts hts _
  exact (hlist hts).bind fun values _ _ hrest => .pure hrest (Statement.print values position)

theorem localAt_termination {t : Token} (ht : t.kind = .keyword .khlas) (hseen : seen t)
    {ts : List Token} (hts : [stop] <:+ ts) :
    LocalAt StatementComplaint stop seen (termination t.position) ts := by
  obtain ⟨u, behind, rfl⟩ := exists_cons_of_suffix hts
  by_cases hu : u.isTerminator = true
  · exact .head (g := fun us => .ok (.termination t.position, us)) (fun _ => if_pos hu)
      (.pure hts _)
  · exact .head (g := fun _ => .error ⟨.misplacedSentinel, t.position⟩) (fun _ => if_neg hu)
      (.fail (.inl hseen) (.expression (.sentinel ht)))

/-- Two tokens tell an assignment from an expression, and `stop` is neither of the two. -/
theorem target?_append_eq_none (hstop : outsideStatement stop.kind = true) {ts : List Token}
    (hts : [stop] <:+ ts) (h : target? ts = none) (ys : List Token) :
    target? (ts ++ ys) = none := by
  rw [Option.eq_none_iff_forall_ne_some]
  rintro ⟨name, rest⟩ hsome
  obtain ⟨t, u, hsplit, ht, hu⟩ := target?_eq_some hsome
  obtain ⟨t', behind, rfl⟩ := exists_cons_of_suffix hts
  obtain ⟨rfl, hbehind⟩ := List.cons.inj hsplit
  have hts' := suffix_of_outsideStatement hstop (by rw [ht]; rfl) hts
  obtain ⟨u', behind, rfl⟩ := exists_cons_of_suffix hts'
  obtain ⟨rfl, -⟩ := List.cons.inj hbehind
  rw [target?, ht, hu] at h
  cases h

theorem local_simple (hstop : outsideStatement stop.kind = true) (hexpr : Local C stop expr.run)
    (position : Position) : Local C stop (simple expr position).run := by
  intro ts hts _
  cases htarget : target? ts with
  | none =>
    refine .drop (p := []) (g := fun us => expr.run us >>= fun r =>
      .ok (.expression r.1 position, r.2)) (fun ys => ?_) ?_
    · dsimp only [simple, List.nil_append]
      rw [target?_append_eq_none hstop hts htarget]
      rfl
    · exact (hexpr hts).bind
        fun value _ _ hrest => .pure hrest (Statement.expression value position)
  | some r =>
    obtain ⟨name, rest⟩ := r
    obtain ⟨t, u, rfl, ht, hu⟩ := target?_eq_some htarget
    have hrest := suffix_of_outsideStatement hstop (by rw [hu]; rfl)
      (suffix_of_outsideStatement hstop (by rw [ht]; rfl) hts)
    refine .drop (p := [t, u]) (g := fun us => expr.run us >>= fun r =>
      .ok (.assignment name r.1 position, r.2)) (fun ys => ?_) ?_
    · dsimp only [simple, target?, List.cons_append, List.nil_append]
      rw [ht, hu]
      rfl
    · exact (hexpr hrest).bind
        fun value _ _ hlast => .pure hlast (Statement.assignment name value position)

/-- What a statement may start with, and what is read behind that. -/
theorem statementAt_cases (expr : Parser Expr) (block : Parser (List Statement)) (t : Token) :
    (t.kind = .keyword .khlas ∧
      ∀ us, statementAt expr block t us = termination t.position us) ∨
    (t.kind = .keyword .kteb ∧
      ∀ us, statementAt expr block t us = (print expr t.position).run us) ∨
    (t.kind = .keyword .ila ∧
      ∀ us, statementAt expr block t us = (conditional expr block t.position).run us) ∨
    (t.kind = .keyword .mazal ∧
      ∀ us, statementAt expr block t us = (loop expr block t.position).run us) ∨
    (∀ us, statementAt expr block t us =
      .error (ParseError.unexpected (some t) "a statement")) ∨
    ∀ us, statementAt expr block t us = (simple expr t.position).run (t :: us) := by
  dsimp only [statementAt]
  cases hk : t.kind with
  | keyword word =>
    cases word with
    | khlas => exact .inl ⟨rfl, fun _ => rfl⟩
    | kteb => exact .inr (.inl ⟨rfl, fun _ => rfl⟩)
    | ila => exact .inr (.inr (.inl ⟨rfl, fun _ => rfl⟩))
    | mazal => exact .inr (.inr (.inr (.inl ⟨rfl, fun _ => rfl⟩)))
    | wila => exact .inr (.inr (.inr (.inr (.inl fun _ => rfl))))
    | walou => exact .inr (.inr (.inr (.inr (.inr fun _ => rfl))))
  | _ => exact .inr (.inr (.inr (.inr (.inr fun _ => rfl))))

theorem local_statementWith (hstop : outsideStatement stop.kind = true)
    (hexpr : Local StatementComplaint stop expr.run)
    (hblock : Local StatementComplaint stop block.run) :
    Local StatementComplaint stop (statementWith expr block).run := by
  intro ts hts seen
  obtain ⟨t, behind, rfl⟩ := exists_cons_of_suffix hts
  have hbehind : ∀ {word}, t.kind = .keyword word → [stop] <:+ behind := fun ht =>
    suffix_of_outsideStatement hstop (by rw [ht]; rfl) hts
  rcases statementAt_cases expr block t with
    ⟨ht, h⟩ | ⟨ht, h⟩ | ⟨ht, h⟩ | ⟨ht, h⟩ | h | h
  · exact .cons h (localAt_termination ht (.inr rfl) (hbehind ht))
  · exact .cons h (local_print hstop hexpr t.position (hbehind ht))
  · exact .cons h (local_conditional hstop hexpr hblock t.position (hbehind ht))
  · exact .cons h (local_loop hexpr hblock t.position (hbehind ht))
  · exact .head (g := fun _ => .error (ParseError.unexpected (some t) "a statement")) h
      (.fail (.inr rfl) (.unexpected (by decide)))
  · exact .head h (local_simple hstop hexpr t.position hts)

end Statement

/-- **Statements are read locally**, up to a token that none of them contains or an end of line. -/
theorem local_statement (hstop : outsideStatement stop.kind = true) (d : Nat) :
    Local StatementComplaint stop (statement (maxNesting - d)).run := by
  refine nesting_induction
    (P := fun levels _ => Local StatementComplaint stop (statement levels).run)
    (fun {levels d} _ hin => ?_) d
  rw [statement_eq]
  refine local_statementWith hstop (local_expression hstop)
    (local_block (d := d) hstop fun k hk => ?_)
  obtain ⟨hinner, hlocal⟩ := hin k hk
  refine ⟨?_, hlocal⟩
  rw [← hinner]
  exact reads_isLine (d + 1)

/-! ## Lines -/

/-- What is complained about a token of a line. -/
inductive LineComplaint (t : Token) : Complaint → Prop
  | statement {e : Complaint} (h : StatementComplaint t e) : LineComplaint t e
  | trailing (ht : ∀ c, t.kind ≠ .error c) :
      LineComplaint t ⟨.trailingTokens t.describe, t.position⟩

theorem mem_of_mem_skipLineEnds {ts : List Token} {t : Token} (h : t ∈ skipLineEnds ts) : t ∈ ts :=
  (List.dropWhile_suffix _).subset h

/-- A token that ends no line stops the skipping, whatever comes next. -/
theorem skipLineEnds_append_of_cons {ts behind : List Token} {t : Token}
    (h : skipLineEnds ts = t :: behind) (ys : List Token) :
    skipLineEnds (ts ++ ys) = t :: (behind ++ ys) := by
  rw [skipLineEnds] at h
  rw [skipLineEnds, List.dropWhile_append, h]
  rfl

/-- What stands behind a statement is complained about whatever comes next. -/
theorem checkEnd_eq_error {ts : List Token} {e : Complaint} (h : checkEnd ts = .error e) :
    (∃ t ∈ ts, LineComplaint t e) ∧ e.cause ≠ .unterminatedBlock ∧
      ∀ ys, checkEnd (ts ++ ys) = .error e := by
  cases hskip : skipLineEnds ts with
  | nil => rw [checkEnd, hskip] at h; cases h
  | cons t behind =>
    have hmore : ∀ ys, checkEnd (ts ++ ys) = checkEnd ts := fun ys => by
      rw [checkEnd, checkEnd, hskip, skipLineEnds_append_of_cons hskip]
    have ht : t ∈ ts := mem_of_mem_skipLineEnds (by rw [hskip]; exact List.mem_cons_self)
    have hcomplaint : LineComplaint t e ∧ e.cause ≠ .unterminatedBlock := by
      rw [checkEnd, hskip] at h
      dsimp only at h
      split at h
      · cases h
      · next hk => cases h; exact ⟨.statement (.expression (.sentinel hk)), nofun⟩
      · cases h; exact ⟨.statement (.unexpected (by decide)), cause_unexpected_ne t _⟩
      · next hk => cases h; exact ⟨.trailing hk, nofun⟩
    exact ⟨⟨t, ht, hcomplaint.1⟩, hcomplaint.2, fun ys => by rw [hmore, h]⟩

end Parser

/-- **What is wrong with a line stays wrong**, however the line goes on, unless it is only that a
block is still open.  The complaint is about a token of the line. -/
theorem Statement.ofTokens?_append_eq_error {stop : Token}
    (hstop : Parser.outsideStatement stop.kind = true) {ts : List Token}
    (hts : [stop] <:+ Parser.skipLineEnds ts) {e : Complaint} (h : ofTokens? ts = .error e) :
    (∃ t ∈ ts, Parser.LineComplaint t e) ∧
      (e.cause ≠ .unterminatedBlock → ∀ ys, ofTokens? (ts ++ ys) = .error e) := by
  obtain ⟨t, behind, hskip⟩ := Parser.exists_cons_of_suffix hts
  have hmore : ∀ ys, Parser.skipLineEnds (ts ++ ys) = Parser.skipLineEnds ts ++ ys := fun ys => by
    rw [Parser.skipLineEnds_append_of_cons hskip, hskip, List.cons_append]
  have hmem : ∀ u ∈ Parser.skipLineEnds ts, u ∈ ts := fun u hu => Parser.mem_of_mem_skipLineEnds hu
  have hlocal := (Parser.local_statement hstop 0).localAt hts
  rcases Parser.bind_eq_error.1 h with h | ⟨⟨s, rest⟩, hrun, h⟩
  · obtain ⟨⟨u, hu, hue⟩, hstable⟩ := hlocal.error h
    refine ⟨⟨u, hmem u (hu.resolve_left id), .statement hue⟩, fun hne ys => ?_⟩
    refine Parser.bind_eq_error.2 (.inl ?_)
    rw [hmore]
    exact hstable hne ys
  · obtain ⟨-, hsuffix, hstable⟩ := hlocal.ok hrun
    obtain h | ⟨-, -, h⟩ := Parser.bind_eq_error.1 h
    · obtain ⟨⟨u, hu, hue⟩, -, hend⟩ := Parser.checkEnd_eq_error h
      refine ⟨⟨u, hmem u (hsuffix.subset hu), hue⟩, fun _ ys => ?_⟩
      refine Parser.bind_eq_error.2 (.inr ⟨(s, rest ++ ys), ?_, ?_⟩)
      · rw [hmore]
        exact hstable ys
      · exact Parser.bind_eq_error.2 (.inl (hend ys))
    · cases h

end DarjaLang
