import DarjaLang.Proofs.Grammar.Expression.Soundness
import DarjaLang.Proofs.Grammar.Statement
import DarjaLang.Proofs.Reading.Unfolding

/-!
# What is read as a statement is one

Whatever the parser for statements reads has a derivation in the grammar.  The parsers for
conditionals, loops and blocks only read what the parsers they are built from read
(`reads_guarded`, `reads_alternatives`, `reads_blockAround`), and `reads_isLine` is the result, by
recursion on the levels of nesting that are left.
-/

set_option autoImplicit false

namespace DarjaLang

open Grammar

namespace Parser

/-! ## Ends of lines -/

/-- Ends of lines are skipped, and if the first token is one, some are. -/
theorem exists_lineEnds (ts : List Token) :
    ∃ ends, ts = ends ++ skipLineEnds ts ∧ LineEnds ends ∧
      ∀ t ∈ ts.head?, t.kind = .endOfLine → ends ≠ [] := by
  rw [skipLineEnds]
  refine ⟨_, List.takeWhile_append_dropWhile.symm, fun t ht => ?_, fun t ht hk => ?_⟩
  · have h := List.all_eq_true.1 List.all_takeWhile t ht
    split at h
    · assumption
    · cases h
  · cases ts with
    | nil => cases ht
    | cons u ts =>
      cases ht
      simp [hk]

theorem skipLineEnds_of_ne {t : Token} (ht : t.kind ≠ .endOfLine) (ts : List Token) :
    skipLineEnds (t :: ts) = t :: ts := by
  rw [skipLineEnds, List.dropWhile_cons_of_neg]
  split
  · contradiction
  · exact Bool.false_ne_true

theorem skipLineEnds_append {ends : List Token} (hends : LineEnds ends) (ts : List Token) :
    skipLineEnds (ends ++ ts) = skipLineEnds ts := by
  rw [skipLineEnds, skipLineEnds]
  refine List.dropWhile_append_of_pos fun t ht => ?_
  rw [hends t ht]

/-! ## Blocks -/

section Block

variable {levels d : Nat} {item : Parser Statement} {opening : Position}

/-- A closing brace ends a block. -/
theorem blockFrom_of_rightBrace {c : Token} (hc : c.kind = .rightBrace) (ts : List Token) :
    blockFrom item opening (c :: ts) = .ok ([], ts) := by
  rw [blockFrom_eq, skipLineEnds_of_ne (by rw [hc]; nofun)]
  dsimp only
  rw [hc]

/-- Any other token starts a statement, if it ends no line. -/
theorem blockFrom_cons_of_ne {t : Token} (hline : t.kind ≠ .endOfLine)
    (hclose : t.kind ≠ .rightBrace) (hinput : t.kind ≠ .endOfInput) (ts : List Token) :
    blockFrom item opening (t :: ts) = do
      let (s, rest) ← item.run (t :: ts)
      let s ← checkNested s
      checkFollower opening rest
      let (ss, rest) ← blockFrom item opening rest
      return (s :: ss, rest) := by
  rw [blockFrom_eq, skipLineEnds_of_ne hline]
  dsimp only
  split
  · contradiction
  · contradiction
  · rfl

/-- Ends of lines in front of a statement do not matter. -/
theorem blockFrom_append {ends : List Token} (hends : LineEnds ends) (ts : List Token) :
    blockFrom item opening (ends ++ ts) = blockFrom item opening ts := by
  rw [blockFrom_eq, skipLineEnds_append hends, ← blockFrom_eq]

theorem checkNested_eq_ok {s s' : Statement} (h : checkNested s = .ok s') :
    s' = s ∧ ∀ position, s ≠ .termination position := by
  rw [checkNested.eq_def] at h
  split at h
  · cases h
  · next hne => cases h; exact ⟨rfl, hne⟩

/-- Behind a statement in a block comes the end of its line or of the block. -/
theorem checkFollower_eq_ok {ts : List Token} (h : checkFollower opening ts = .ok ()) :
    ∃ t rest, ts = t :: rest ∧ (t.kind = .endOfLine ∨ t.kind = .rightBrace) := by
  cases ts with
  | nil => cases h
  | cons t rest =>
    refine ⟨t, rest, rfl, ?_⟩
    dsimp only [checkFollower] at h
    split at h
    · next ht => exact .inl ht
    · next ht => exact .inr ht
    · cases h
    · cases h

/-- The statements of a block, and what comes behind the closing brace. -/
theorem reads_blockFrom (hitem : Reads item (IsLine d)) {ts rest : List Token}
    {ss : List Statement} (h : blockFrom item opening ts = .ok (ss, rest)) :
    ∃ p c, skipLineEnds ts = p ++ c :: rest ∧ c.kind = .rightBrace ∧ IsBody d p ss := by
  fun_induction blockFrom item opening ts generalizing ss rest with
  | case1 => cases h
  | case2 ts t behind hskip ht => cases h; exact ⟨[], t, hskip, ht, .done .nil⟩
  | case3 => cases h
  | case4 => cases h
  | case5 ts t behind hskip s last hrun hbrace hinput ih =>
    obtain ⟨s', hs', h⟩ := bind_eq_ok.1 h
    obtain ⟨⟨⟩, hfollower, h⟩ := bind_eq_ok.1 h
    obtain ⟨⟨ss', rest'⟩, hrest, h⟩ := bind_eq_ok.1 h
    cases h
    obtain ⟨rfl, hne⟩ := checkNested_eq_ok hs'
    obtain ⟨used, hused, hline⟩ := hitem hrun
    have hs : IsStatement d used s' := by
      cases hline with
      | sentinel => exact absurd rfl (hne _)
      | statement hs => exact hs
    obtain ⟨u, behind', rfl, hu⟩ := checkFollower_eq_ok hfollower
    rw [hskip, hused]
    rcases hu with hu | hu
    · obtain ⟨p, c, hp, hc, hbody⟩ := ih hrest
      obtain ⟨ends, hends, hlineEnds, hsome⟩ := exists_lineEnds (u :: behind')
      refine ⟨used ++ (ends ++ p), c, ?_, hc, .line hs hlineEnds (hsome u rfl hu) hbody⟩
      rw [hends, hp]
      simp
    · rw [blockFrom_of_rightBrace hu] at hrest
      cases hrest
      exact ⟨used ++ [], u, by simp, hu, .last hs .nil⟩

theorem reads_blockAround (hin : ∀ k, levels = k + 1 → d < maxNesting ∧
    Reads (statement k) (IsLine (d + 1))) : Reads (block levels) (IsBlock d) := by
  intro ts ss rest h
  cases ts with
  | nil => cases h
  | cons o ts =>
    dsimp only [block, blockAround] at h
    split at h
    · next ho =>
      obtain ⟨item, hitem, h⟩ := bind_eq_ok.1 h
      cases levels with
      | zero => cases hitem
      | succ k =>
        cases hitem
        obtain ⟨hd, hreads⟩ := hin k rfl
        obtain ⟨p, c, hp, hc, hbody⟩ := reads_blockFrom hreads h
        obtain ⟨ends, hts, hends, -⟩ := exists_lineEnds ts
        refine ⟨o :: (ends ++ (p ++ [c])), ?_, .braces ho hends hc hd hbody⟩
        rw [hts, hp]
        simp
    · cases h

end Block

/-! ## Statements -/

section Statement

variable {levels d : Nat}

/-- A condition and the block behind it. -/
def IsGuarded (d : Nat) (ts : List Token) (b : Expr × List Statement) : Prop :=
  ∃ p q, ts = p ++ q ∧ IsExpr .disjunction d p b.1 ∧ IsBlock d q b.2

theorem reads_guarded {expr : Parser Expr} {block : Parser (List Statement)}
    (hexpr : Reads expr (IsExpr .disjunction d)) (hblock : Reads block (IsBlock d)) :
    Reads (guarded expr block) (IsGuarded d) := by
  intro ts b rest h
  obtain ⟨⟨e, behind⟩, hrun, h⟩ := bind_eq_ok.1 h
  obtain ⟨⟨body, last⟩, hbody, h⟩ := bind_eq_ok.1 h
  cases h
  obtain ⟨p, rfl, hp⟩ := hexpr hrun
  obtain ⟨q, rfl, hq⟩ := hblock hbody
  exact ⟨p ++ q, by simp, p, q, rfl, hp, hq⟩

theorem reads_alternatives {branch : Parser (Expr × List Statement)}
    {block : Parser (List Statement)} (hbranch : Reads branch (IsGuarded d))
    (hblock : Reads block (IsBlock d)) {ts rest : List Token}
    {r : List (Expr × List Statement) × Option (List Statement)}
    (h : alternatives branch block ts = .ok (r, rest)) :
    ∃ used, ts = used ++ rest ∧ IsAlternatives d used r.1 r.2 := by
  have hotherwise : ∀ {w : Token} {ts rest : List Token} {body : List Statement},
      w.kind = .keyword .wila → block.run ts = .ok (body, rest) →
      ∃ used, w :: ts = used ++ rest ∧ IsAlternatives d used [] (some body) := by
    intro w ts rest body hw hrun
    obtain ⟨p, rfl, hp⟩ := hblock hrun
    exact ⟨w :: p, rfl, .otherwise hw hp⟩
  fun_induction alternatives branch block ts generalizing r rest with
  | case1 => cases h; exact ⟨[], rfl, .none⟩
  | case2 w hw =>
    obtain ⟨⟨body, last⟩, hrun, h⟩ := bind_eq_ok.1 h
    cases h
    exact hotherwise hw hrun
  | case3 => cases h
  | case4 w hw i behind hi b last hrun ih =>
    obtain ⟨⟨⟨bs, otherwise⟩, last'⟩, hrest, h⟩ := bind_eq_ok.1 h
    cases h
    obtain ⟨_, rfl, p, q, rfl, hp, hq⟩ := hbranch hrun
    obtain ⟨used, rfl, hused⟩ := ih hrest
    exact ⟨w :: i :: (p ++ (q ++ used)), by simp, .branch hw hi hp hq hused⟩
  | case5 w hw =>
    obtain ⟨⟨body, last⟩, hrun, h⟩ := bind_eq_ok.1 h
    cases h
    exact hotherwise hw hrun
  | case6 => cases h; exact ⟨[], rfl, .none⟩

theorem target?_eq_some {ts rest : List Token} {name : String}
    (h : target? ts = some (name, rest)) :
    ∃ t u, ts = t :: u :: rest ∧ t.kind = .identifier name ∧ u.kind = .assign := by
  rw [target?.eq_def] at h
  split at h
  · split at h
    · next ht hu => cases h; exact ⟨_, _, rfl, ht, hu⟩
    · cases h
  · cases h

theorem reads_simple {expr : Parser Expr} (hexpr : Reads expr (IsExpr .disjunction d))
    {t : Token} {ts rest : List Token} {s : Statement}
    (h : (simple expr t.position).run (t :: ts) = .ok (s, rest)) :
    ∃ used, t :: ts = used ++ rest ∧ IsStatement d used s := by
  dsimp only [simple] at h
  split at h
  · next name behind htarget =>
    obtain ⟨⟨value, last⟩, hrun, h⟩ := bind_eq_ok.1 h
    cases h
    obtain ⟨t', u, hts, ht, hu⟩ := target?_eq_some htarget
    cases hts
    obtain ⟨p, rfl, hp⟩ := hexpr hrun
    exact ⟨t :: u :: p, rfl, .assignment ht hu hp⟩
  · obtain ⟨⟨value, last⟩, hrun, h⟩ := bind_eq_ok.1 h
    cases h
    obtain ⟨p, hts, hp⟩ := hexpr hrun
    obtain ⟨t', q, rfl, -⟩ := hp.exists_cons
    cases hts
    exact ⟨t :: q, rfl, .expression hp⟩

theorem reads_statementWith {expr : Parser Expr} {block : Parser (List Statement)}
    (hexpr : Reads expr (IsExpr .disjunction d)) (hblock : Reads block (IsBlock d)) :
    Reads (statementWith expr block) (IsLine d) := by
  have hguarded := reads_guarded hexpr hblock
  intro ts s rest h
  cases ts with
  | nil => cases h
  | cons t ts =>
    dsimp only [statementWith, statementAt] at h
    split at h
    · next ht =>
      have hrest : s = .termination t.position ∧ rest = ts := by
        rw [termination.eq_def] at h
        split at h
        · cases h; exact ⟨rfl, rfl⟩
        · split at h <;> cases h
          exact ⟨rfl, rfl⟩
      obtain ⟨rfl, rfl⟩ := hrest
      exact ⟨[t], rfl, .sentinel ht⟩
    · next ht =>
      obtain ⟨⟨es, last⟩, hrun, h⟩ := bind_eq_ok.1 h
      cases h
      have hlist : Reads (separated expr) (IsList d) :=
        reads_separated hexpr (fun _ _ => .one) fun _ _ _ _ _ => .more
      obtain ⟨p, rfl, hp⟩ := hlist hrun
      exact ⟨t :: p, rfl, .statement (.print ht hp)⟩
    · next ht =>
      obtain ⟨⟨b, behind⟩, hrun, h⟩ := bind_eq_ok.1 h
      obtain ⟨⟨⟨bs, otherwise⟩, last⟩, hrest, h⟩ := bind_eq_ok.1 h
      cases h
      obtain ⟨_, rfl, p, q, rfl, hp, hq⟩ := hguarded hrun
      obtain ⟨r, rfl, hr⟩ := reads_alternatives hguarded hblock hrest
      exact ⟨t :: (p ++ (q ++ r)), by simp, .statement (.conditional ht hp hq hr)⟩
    · next ht =>
      obtain ⟨⟨⟨e, body⟩, last⟩, hrun, h⟩ := bind_eq_ok.1 h
      cases h
      obtain ⟨_, rfl, p, q, rfl, hp, hq⟩ := hguarded hrun
      exact ⟨t :: (p ++ q), rfl, .statement (.loop ht hp hq)⟩
    · cases h
    · obtain ⟨used, hused, hs⟩ := reads_simple hexpr h
      exact ⟨used, hused, .statement hs⟩

end Statement

/-- **What is read as a statement is one.** -/
theorem reads_isLine (d : Nat) : Reads (statement (maxNesting - d)) (IsLine d) := by
  refine nesting_induction (P := fun levels d => Reads (statement levels) (IsLine d))
    (fun {levels d} hlevels hin => ?_) d
  rw [statement_eq]
  refine reads_statementWith ?_ (reads_blockAround fun k hk => ⟨by omega, (hin k hk).2⟩)
  rw [← hlevels]
  exact reads_isExpr d .disjunction

end Parser

end DarjaLang
