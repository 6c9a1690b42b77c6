import DarjaLang.Proofs.Grammar.Statement.Completeness
import DarjaLang.Proofs.Reading.Statement

/-!
# Closing what is open

A statement whose only fault is that a block is still open is the beginning of a valid one: its
braces count how many blocks are open, and so many closing braces complete it.

* `OpenLine stop ts` says that the tokens end with `stop`, which is outside of statements, and that
  the input does not end among them.
* `ClosesAt opened P f ts` says that `f` complains about an open block only if more blocks are open
  than have been closed, `opened` of them in front of `ts`, and that it then reads `ts` with so many
  closing braces as something that satisfies `P`.
* `closesAt_statement` is the result, by recursion on the levels of nesting that are left.
-/

set_option autoImplicit false

namespace DarjaLang

open Grammar

namespace Parser

variable {α β : Type} {stop : Token} {ts : List Token} {opened : Int} {levels d : Nat}

/-- The tokens end with `stop`, which is outside of statements, and the input does not end among
them. -/
structure OpenLine (stop : Token) (ts : List Token) : Prop where
  outside : outsideStatement stop.kind = true
  suffix : [stop] <:+ ts
  noInput : ∀ t ∈ ts, t.kind ≠ .endOfInput

namespace OpenLine

theorem of_suffix {rest : List Token} (h : OpenLine stop ts) (hrest : [stop] <:+ rest)
    (hsuffix : rest <:+ ts) : OpenLine stop rest :=
  ⟨h.outside, hrest, fun t ht => h.noInput t (hsuffix.subset ht)⟩

theorem tail {t : Token} (h : OpenLine stop (t :: ts)) (ht : outsideStatement t.kind = false) :
    OpenLine stop ts :=
  h.of_suffix (suffix_of_outsideStatement h.outside ht h.suffix) (List.suffix_cons t ts)

end OpenLine

/-- So many closing braces. -/
def ClosingBraces (n : Int) (closers : List Token) : Prop :=
  (∀ c ∈ closers, c.kind = .rightBrace) ∧ closers.length = n

/-- The last of the closing braces closes the outermost block. -/
theorem ClosingBraces.exists_concat {n : Int} {closers : List Token}
    (h : ClosingBraces (n + 1) closers) (hn : 0 ≤ n) :
    ∃ inner c, closers = inner ++ [c] ∧ ClosingBraces n inner ∧ c.kind = .rightBrace := by
  obtain ⟨hkind, hlength⟩ := h
  rcases List.eq_nil_or_concat closers with rfl | ⟨inner, c, rfl⟩
  · simp at hlength
    omega
  · simp only [List.concat_eq_append, List.mem_append, List.mem_singleton] at hkind ⊢
    refine ⟨inner, c, rfl, ⟨fun u hu => hkind u (.inl hu), ?_⟩, hkind c (.inr rfl)⟩
    simp at hlength
    omega

/-- An open block is complained about only if one is open, and closing braces complete it. -/
def ClosesAt (opened : Int) (P : α → Prop) (f : List Token → Reading (α × List Token))
    (ts : List Token) : Prop :=
  ∀ ⦃e⦄, f ts = .error e → e.cause = .unterminatedBlock →
    0 < Token.balance ts + opened ∧
      ∀ ⦃closers tail⦄, ClosingBraces (Token.balance ts + opened) closers → EndsNested tail →
        ∃ a, P a ∧ f (ts ++ (closers ++ tail)) = .ok (a, tail)

namespace ClosesAt

variable {P : α → Prop} {Q : β → Prop} {f : List Token → Reading (α × List Token)}

/-- Nothing that is wrong with an expression is about a block. -/
theorem of_local {seen : Token → Prop} (h : LocalAt ExprComplaint stop seen f ts) :
    ClosesAt opened P f ts := by
  intro e he hopen
  obtain ⟨⟨t, -, hte⟩, -⟩ := h.error he
  exact absurd hopen hte.cause_ne

/-- One thing behind another: what closes the first has to do for both. -/
theorem bind {C : Token → Complaint → Prop} {seen : Token → Prop}
    {g : α × List Token → Reading (β × List Token)} (hlocal : LocalAt C stop seen f ts)
    (hf : ClosesAt opened P f ts)
    (hend : ∀ a tail, P a → EndsNested tail → ∃ b, Q b ∧ g (a, tail) = .ok (b, tail))
    (hg : ∀ a rest, f ts = .ok (a, rest) →
      Token.balance rest = Token.balance ts ∧ ClosesAt opened Q (fun us => g (a, us)) rest) :
    ClosesAt opened Q (fun us => f us >>= g) ts := by
  intro e h hopen
  rcases bind_eq_error.1 h with h | ⟨⟨a, rest⟩, hfirst, h⟩
  · obtain ⟨hpos, hcloses⟩ := hf h hopen
    refine ⟨hpos, fun closers tail hclosers htail => ?_⟩
    obtain ⟨a, ha, hfirst⟩ := hcloses hclosers htail
    obtain ⟨b, hb, hsecond⟩ := hend a tail ha htail
    exact ⟨b, hb, bind_eq_ok.2 ⟨_, hfirst, hsecond⟩⟩
  · obtain ⟨hbalance, hrest⟩ := hg a rest hfirst
    obtain ⟨hpos, hcloses⟩ := hrest h hopen
    rw [hbalance] at hpos hcloses
    refine ⟨hpos, fun closers tail hclosers htail => ?_⟩
    obtain ⟨b, hb, hsecond⟩ := hcloses hclosers htail
    obtain ⟨-, -, hmore⟩ := hlocal.ok hfirst
    exact ⟨b, hb, bind_eq_ok.2 ⟨_, hmore _, hsecond⟩⟩

/-- What was read is put into another form. -/
theorem map {g : α × List Token → Reading (β × List Token)} (hf : ClosesAt opened P f ts)
    (hg : ∀ a us, ∃ b, Q b ∧ g (a, us) = .ok (b, us)) :
    ClosesAt opened Q (fun us => f us >>= g) ts := by
  intro e h hopen
  rcases bind_eq_error.1 h with h | ⟨⟨a, rest⟩, -, h⟩
  · obtain ⟨hpos, hcloses⟩ := hf h hopen
    refine ⟨hpos, fun closers tail hclosers htail => ?_⟩
    obtain ⟨a, -, hread⟩ := hcloses hclosers htail
    obtain ⟨b, hb, hform⟩ := hg a tail
    exact ⟨b, hb, bind_eq_ok.2 ⟨_, hread, hform⟩⟩
  · obtain ⟨b, -, hform⟩ := hg a rest
    rw [hform] at h
    cases h

/-- The reader goes by the first tokens, which open so many blocks, and reads those behind them in
some way. -/
theorem drop {p : List Token} {g : List Token → Reading (α × List Token)}
    (hf : ∀ ys, f (p ++ (ts ++ ys)) = g (ts ++ ys))
    (hg : ClosesAt (Token.balance p + opened) P g ts) : ClosesAt opened P f (p ++ ts) := by
  intro e h hopen
  have hnow : f (p ++ ts) = g ts := by simpa using hf []
  rw [hnow] at h
  have hbalance : Token.balance (p ++ ts) + opened =
      Token.balance ts + (Token.balance p + opened) := by
    rw [Token.balance_append]
    omega
  rw [hbalance]
  obtain ⟨hpos, hcloses⟩ := hg h hopen
  refine ⟨hpos, fun closers tail hclosers htail => ?_⟩
  obtain ⟨a, ha, hmore⟩ := hcloses hclosers htail
  exact ⟨a, ha, by rw [List.append_assoc, hf, hmore]⟩

theorem cons {t : Token} {g : List Token → Reading (α × List Token)}
    (hf : ∀ us, f (t :: us) = g us) (ht : t.weight = 0) (hg : ClosesAt opened P g ts) :
    ClosesAt opened P f (t :: ts) := by
  refine .drop (p := [t]) (fun ys => hf (ts ++ ys)) ?_
  rw [Token.balance_cons, Token.balance_nil, ht]
  simpa using hg

end ClosesAt

/-- What is read leaves the balance of the tokens behind it alone. -/
theorem Reads.balance_eq {p : Parser α} {R : List Token → α → Prop} (h : Reads p R)
    (hR : ∀ used a, R used a → Token.balance used = 0) {a : α} {rest : List Token}
    (hrun : p.run ts = .ok (a, rest)) : Token.balance rest = Token.balance ts := by
  obtain ⟨used, rfl, hused⟩ := h hrun
  rw [Token.balance_append, hR used a hused, Int.zero_add]

/-! ## Blocks -/

section Block

variable {item : Parser Statement} {o : Token}

/-- A statement that may stand in a block. -/
def Nested (s : Statement) : Prop := checkNested s = .ok s

/-- Only a block that is open is complained about behind its statements. -/
theorem cause_ne_of_checkNested {s : Statement} {e : Complaint} (h : checkNested s = .error e) :
    e.cause ≠ .unterminatedBlock := by
  cases s with
  | termination position => cases h; nofun
  | _ => cases h

theorem cause_ne_of_checkFollower {opening : Position} {e : Complaint} (hts : OpenLine stop ts)
    (h : checkFollower opening ts = .error e) : e.cause ≠ .unterminatedBlock := by
  obtain ⟨t, behind, rfl⟩ := exists_cons_of_suffix hts.suffix
  dsimp only [checkFollower] at h
  split at h
  · cases h
  · cases h
  · next ht => exact absurd ht (hts.noInput t List.mem_cons_self)
  · cases h
    exact cause_unexpected_ne t _

/-- A block goes on with a statement: the block is open either in the statement, and then it takes
one more brace to close it, or behind it. -/
theorem closesAt_blockFrom_cons {opening : Position} {t : Token} (hread : Reads item (IsLine d))
    (hlocal : Local StatementComplaint stop item.run)
    (hitem : ClosesAt 0 Nested item.run (t :: ts)) (hts : OpenLine stop (t :: ts))
    (hline : t.kind ≠ .endOfLine) (hclose : t.kind ≠ .rightBrace)
    (hrest : ∀ s rest, item.run (t :: ts) = .ok (s, rest) → OpenLine stop rest →
      ClosesAt 1 (fun _ => True) (blockFrom item opening) rest) :
    ClosesAt 1 (fun _ => True) (blockFrom item opening) (t :: ts) := by
  have hblock := @blockFrom_cons_of_ne item opening t hline hclose
    (hts.noInput t List.mem_cons_self)
  intro e h hopen
  rw [hblock] at h
  rcases bind_eq_error.1 h with h | ⟨⟨s, rest⟩, hrun, h⟩
  · obtain ⟨hpos, hcloses⟩ := hitem h hopen
    refine ⟨by omega, fun closers tail hclosers htail => ?_⟩
    obtain ⟨inner, c, rfl, hinner, hc⟩ := hclosers.exists_concat (by omega)
    have hnested : EndsNested (c :: tail) := ⟨c, tail, rfl, .inr hc⟩
    rw [← Int.add_zero (Token.balance _)] at hinner
    obtain ⟨s, hs, hrun⟩ := hcloses hinner hnested
    refine ⟨[s], trivial, ?_⟩
    rw [List.append_assoc, List.singleton_append, List.cons_append, hblock]
    refine bind_eq_ok.2 ⟨_, hrun, bind_eq_ok.2 ⟨s, hs, bind_eq_ok.2 ⟨(), ?_, ?_⟩⟩⟩
    · rw [checkFollower, hc]
    · exact bind_eq_ok.2 ⟨_, blockFrom_of_rightBrace hc tail, rfl⟩
  · obtain ⟨hsuffix, hle, hmore⟩ := (hlocal.localAt hts.suffix).ok hrun
    have hopened := hts.of_suffix hsuffix hle
    rcases bind_eq_error.1 h with h | ⟨s', hs', h⟩
    · exact absurd hopen (cause_ne_of_checkNested h)
    rcases bind_eq_error.1 h with h | ⟨⟨⟩, hfollower, h⟩
    · exact absurd hopen (cause_ne_of_checkFollower hopened h)
    rcases bind_eq_error.1 h with h | ⟨_, _, h⟩
    · obtain ⟨hpos, hcloses⟩ := hrest s rest hrun hopened h hopen
      rw [hread.balance_eq (fun _ _ hline => hline.balance) hrun] at hpos hcloses
      refine ⟨hpos, fun closers tail hclosers htail => ?_⟩
      obtain ⟨ss, -, hss⟩ := hcloses hclosers htail
      obtain ⟨u, behind, rfl⟩ := exists_cons_of_suffix hsuffix
      refine ⟨s' :: ss, trivial, ?_⟩
      rw [List.cons_append, hblock]
      exact bind_eq_ok.2 ⟨_, hmore _, bind_eq_ok.2 ⟨s', hs', bind_eq_ok.2 ⟨(), hfollower,
        bind_eq_ok.2 ⟨_, hss, rfl⟩⟩⟩⟩
    · cases h

theorem closesAt_blockFrom {opening : Position} (hread : Reads item (IsLine d))
    (hlocal : Local StatementComplaint stop item.run)
    (hitem : ∀ {ts}, OpenLine stop ts → ClosesAt 0 Nested item.run ts) (hts : OpenLine stop ts) :
    ClosesAt 1 (fun _ => True) (blockFrom item opening) ts := by
  induction hlength : ts.length using Nat.strongRecOn generalizing ts with
  | ind length ih =>
    obtain ⟨ends, hsplit, hends, -⟩ := exists_lineEnds ts
    have hbalance := (WellBraced.lineEnds hends).balance
    cases hskip : skipLineEnds ts with
    | nil =>
      rw [hskip, List.append_nil] at hsplit
      rw [hsplit]
      intro e _ _
      rw [hbalance]
      refine ⟨by omega, fun closers tail hclosers htail => ?_⟩
      obtain ⟨inner, c, rfl, hinner, hc⟩ := hclosers.exists_concat (Int.le_refl 0)
      obtain rfl : inner = [] := List.length_eq_zero_iff.1 (by exact_mod_cast hinner.2)
      exact ⟨[], trivial, by rw [blockFrom_append hends]; exact blockFrom_of_rightBrace hc tail⟩
    | cons t behind =>
      have hle := length_skipLineEnds_le ts
      rw [hskip] at hsplit hle
      have hts' : OpenLine stop (t :: behind) := by
        have hsuffix : t :: behind <:+ ts := ⟨ends, hsplit.symm⟩
        exact hts.of_suffix (List.suffix_of_suffix_length_le hts.suffix hsuffix (by simp)) hsuffix
      have hfirst : ClosesAt 1 (fun _ => True) (blockFrom item opening) (t :: behind) := by
        by_cases hclose : t.kind = .rightBrace
        · intro e h _
          rw [blockFrom_of_rightBrace hclose] at h
          cases h
        refine closesAt_blockFrom_cons hread hlocal (hitem hts') hts'
          (kind_ne_of_skipLineEnds hskip) hclose fun s rest hrun hrest => ?_
        have hlt := item.consumes hrun
        exact ih _ (by omega) hrest rfl
      rw [hsplit]
      refine .drop (fun ys => blockFrom_append hends _) ?_
      rw [hbalance]
      exact hfirst

/-- A block closes if the statements one level further in do. -/
theorem closesAt_block (hts : OpenLine stop ts)
    (hin : ∀ k, levels = k + 1 → Reads (statement k) (IsLine (d + 1)) ∧
      Local StatementComplaint stop (statement k).run ∧
      ∀ {ts}, OpenLine stop ts → ClosesAt 0 Nested (statement k).run ts) :
    ClosesAt 0 (fun _ => True) (block levels).run ts := by
  obtain ⟨o, behind, rfl⟩ := exists_cons_of_suffix hts.suffix
  by_cases ho : o.kind = .leftBrace
  · cases levels with
    | zero =>
      intro e h hopen
      dsimp only [block, blockAround] at h
      rw [ho] at h
      cases h
      cases hopen
    | succ k =>
      obtain ⟨hread, hlocal, hcloses⟩ := hin k rfl
      refine .drop (p := [o]) (g := blockFrom (statement k) o.position) (fun ys => ?_) ?_
      · dsimp only [block, blockAround, List.cons_append]
        rw [ho]
        rfl
      · rw [Token.balance_cons, Token.balance_nil, Token.weight_of_leftBrace ho]
        exact closesAt_blockFrom hread hlocal hcloses (hts.tail (by rw [ho]; rfl))
  · intro e h hopen
    dsimp only [block, blockAround] at h
    split at h
    · contradiction
    · cases h
      exact absurd hopen (cause_unexpected_ne o _)

end Block

/-! ## Statements -/

section Statement

variable {expr : Parser Expr} {block : Parser (List Statement)}

/-- Conditions and blocks as a statement needs them: they are read by the grammar and locally, a
condition complains about no block, and what a block leaves open can be closed. -/
structure Parts (stop : Token) (d : Nat) (expr : Parser Expr) (block : Parser (List Statement)) :
    Prop where
  reads_expr : Reads expr (IsExpr .disjunction d)
  local_expr : Local ExprComplaint stop expr.run
  reads_block : Reads block (IsBlock d)
  local_block : Local StatementComplaint stop block.run
  closes_block : ∀ {ts}, OpenLine stop ts → ClosesAt 0 (fun _ => True) block.run ts

namespace Parts

variable (h : Parts stop d expr block)

include h

theorem local_guarded : Local StatementComplaint stop (guarded expr block).run :=
  Parser.local_guarded (h.local_expr.mono fun _ _ => .expression) h.local_block

theorem balance_guarded {b : Expr × List Statement} {rest : List Token}
    (hrun : (guarded expr block).run ts = .ok (b, rest)) :
    Token.balance rest = Token.balance ts := by
  refine (reads_guarded h.reads_expr h.reads_block).balance_eq (fun used b hb => ?_) hrun
  obtain ⟨p, q, rfl, hp, hq⟩ := hb
  exact (hp.wellBraced.append hq.wellBraced).balance

theorem closesAt_guarded (hts : OpenLine stop ts) :
    ClosesAt 0 (fun _ => True) (guarded expr block).run ts := by
  have hcondition := h.local_expr.localAt hts.suffix
  refine .bind hcondition (P := fun _ => False) (.of_local hcondition) nofun fun e rest hrun => ?_
  obtain ⟨hsuffix, hle, -⟩ := hcondition.ok hrun
  refine ⟨h.reads_expr.balance_eq (fun _ _ hexpr => hexpr.wellBraced.balance) hrun, ?_⟩
  have hrest := hts.of_suffix hsuffix hle
  exact (h.closes_block hrest).map fun body us => ⟨(e, body), trivial, rfl⟩

/-- The branch that is still open is the last one, and nothing more can follow it once it has been
closed in front of an end of line or a closing brace. -/
theorem closesAt_alternatives (hts : OpenLine stop ts) :
    ClosesAt 0 (fun _ => True) (alternatives (guarded expr block) block) ts := by
  induction hlength : ts.length using Nat.strongRecOn generalizing ts with
  | ind length ih =>
    obtain ⟨w, behind, rfl⟩ := exists_cons_of_suffix hts.suffix
    by_cases hw : w.kind = .keyword .wila
    · have hts' := hts.tail (by rw [hw]; rfl)
      obtain ⟨i, behind, rfl⟩ := exists_cons_of_suffix hts'.suffix
      by_cases hi : i.kind = .keyword .ila
      · have hbehind := hts'.tail (by rw [hi]; rfl)
        have hlocal := h.local_guarded.localAt hbehind.suffix
        refine .drop (p := [w, i]) (g := fun us => (guarded expr block).run us >>= fun r =>
            alternatives (guarded expr block) block r.2 >>= fun r' =>
              .ok ((r.1 :: r'.1.1, r'.1.2), r'.2)) (fun ys => ?_) ?_
        · rw [List.cons_append, List.singleton_append, alternatives_cons, hw]
          dsimp only
          rw [hi]
          rfl
        rw [Token.balance_cons, Token.balance_cons, Token.weight_of_keyword hw,
          Token.weight_of_keyword hi]
        refine .bind hlocal (h.closesAt_guarded hbehind) ?_ fun b rest hrun => ?_
        · intro b tail _ htail
          refine ⟨([b], none), trivial, bind_eq_ok.2 ⟨_, alternatives_of_ends ?_, rfl⟩⟩
          exact htail.endsStatement
        · obtain ⟨hsuffix, hle, -⟩ := hlocal.ok hrun
          have hlt := (guarded expr block).consumes hrun
          simp only [List.length_cons] at hlength
          refine ⟨h.balance_guarded hrun, ?_⟩
          exact (ih _ (by omega) (hbehind.of_suffix hsuffix hle) rfl).map
            fun r us => ⟨(b :: r.1, r.2), trivial, rfl⟩
      · refine .drop (p := [w]) (g := fun us => block.run us >>= fun r => .ok (([], some r.1), r.2))
          (fun ys => ?_) ?_
        · rw [List.singleton_append, List.cons_append, alternatives_cons, hw]
          dsimp only
          split
          · contradiction
          · rfl
        rw [Token.balance_cons, Token.balance_nil, Token.weight_of_keyword hw]
        exact (h.closes_block hts').map fun body us => ⟨([], some body), trivial, rfl⟩
    · intro e herror
      rw [alternatives_cons] at herror
      split at herror
      · contradiction
      · cases herror

theorem closesAt_conditional (hts : OpenLine stop ts) (position : Position) :
    ClosesAt 0 Nested (conditional expr block position).run ts := by
  have hlocal := h.local_guarded.localAt hts.suffix
  refine .bind hlocal (h.closesAt_guarded hts) ?_ fun b rest hrun => ?_
  · intro b tail _ htail
    refine ⟨.conditional [b] none position, rfl, bind_eq_ok.2 ⟨_, alternatives_of_ends ?_, rfl⟩⟩
    exact htail.endsStatement
  · obtain ⟨hsuffix, hle, -⟩ := hlocal.ok hrun
    refine ⟨h.balance_guarded hrun, ?_⟩
    exact (h.closesAt_alternatives (hts.of_suffix hsuffix hle)).map
      fun r us => ⟨.conditional (b :: r.1) r.2 position, rfl, rfl⟩

theorem closesAt_loop (hts : OpenLine stop ts) (position : Position) :
    ClosesAt 0 Nested (loop expr block position).run ts :=
  (h.closesAt_guarded hts).map fun b _ => ⟨.loop b.1 b.2 position, rfl, rfl⟩

/-- Only a conditional and a loop contain blocks. -/
theorem closesAt_statementWith (hts : OpenLine stop ts) :
    ClosesAt 0 Nested (statementWith expr block).run ts := by
  obtain ⟨t, behind, rfl⟩ := exists_cons_of_suffix hts.suffix
  have hbehind : ∀ {word}, t.kind = .keyword word → OpenLine stop behind :=
    fun ht => hts.tail (by rw [ht]; rfl)
  rcases statementAt_cases expr block t with
    ⟨ht, hat⟩ | ⟨ht, hat⟩ | ⟨ht, hat⟩ | ⟨ht, hat⟩ | hat | hat
  · refine .cons hat (Token.weight_of_keyword ht) fun e herror hopen => ?_
    obtain ⟨u, us, rfl⟩ := exists_cons_of_suffix (hbehind ht).suffix
    rw [termination] at herror
    split at herror
    · cases herror
    · cases herror
      cases hopen
  · have hprint := (local_print hts.outside h.local_expr t.position).localAt (hbehind ht).suffix
    exact .cons hat (Token.weight_of_keyword ht) (.of_local hprint)
  · exact .cons hat (Token.weight_of_keyword ht) (h.closesAt_conditional (hbehind ht) t.position)
  · exact .cons hat (Token.weight_of_keyword ht) (h.closesAt_loop (hbehind ht) t.position)
  · intro e herror hopen
    rw [show (statementWith expr block).run (t :: behind) = _ from hat behind] at herror
    cases herror
    exact absurd hopen (cause_unexpected_ne t _)
  · have hsimple := (local_simple hts.outside h.local_expr t.position).localAt hts.suffix
    refine .drop (p := []) (fun ys => hat _) ?_
    exact .of_local hsimple

end Parts

end Statement

/-- **What a statement leaves open can be closed.** -/
theorem closesAt_statement (d : Nat) (hts : OpenLine stop ts) :
    ClosesAt 0 Nested (statement (maxNesting - d)).run ts := by
  refine nesting_induction
    (P := fun levels _ => ∀ {ts}, OpenLine stop ts → ClosesAt 0 Nested (statement levels).run ts)
    (fun {levels d} hlevels hin ts hts => ?_) d hts
  have hreads : ∀ k, levels = k + 1 → Reads (statement k) (IsLine (d + 1)) := fun k hk => by
    rw [← (hin k hk).1]
    exact reads_isLine (d + 1)
  have hlocal : ∀ k, levels = k + 1 → Local StatementComplaint stop (statement k).run :=
    fun k hk => by
      rw [← (hin k hk).1]
      exact local_statement hts.outside (d + 1)
  rw [statement_eq]
  refine Parts.closesAt_statementWith (d := d) ⟨?_, ?_, ?_, ?_, ?_⟩ hts
  · rw [← hlevels]
    exact reads_isExpr d .disjunction
  · exact local_level (inExpression_of_outsideStatement hts.outside) levels .disjunction
  · exact reads_blockAround fun k hk => ⟨by omega, hreads k hk⟩
  · exact local_block hts.outside fun k hk => ⟨hreads k hk, hlocal k hk⟩
  · exact fun hts => closesAt_block hts fun k hk => ⟨hreads k hk, hlocal k hk, (hin k hk).2⟩

/-! ## Lines -/

theorem balance_skipLineEnds (ts : List Token) :
    Token.balance (skipLineEnds ts) = Token.balance ts := by
  obtain ⟨ends, hsplit, hends, -⟩ := exists_lineEnds ts
  have hbalance := congrArg Token.balance hsplit
  rw [Token.balance_append, (WellBraced.lineEnds hends).balance, Int.zero_add] at hbalance
  exact hbalance.symm

end Parser

/-- **A line whose only fault is an open block is the beginning of a statement**: its braces count
the open blocks, and so many closing braces complete it. -/
theorem Statement.ofTokens?_closing {stop : Token} {ts : List Token}
    (hts : Parser.OpenLine stop (Parser.skipLineEnds ts)) {e : Complaint}
    (h : ofTokens? ts = .error e) (hopen : e.cause = .unterminatedBlock) :
    0 < Token.balance ts ∧ ∀ closers ends, Parser.ClosingBraces (Token.balance ts) closers →
      LineEnds ends → ends ≠ [] → ∃ s, ofTokens? (ts ++ (closers ++ ends)) = .ok s := by
  have hrun : (Parser.statement maxNesting).run (Parser.skipLineEnds ts) = .error e := by
    rcases Parser.bind_eq_error.1 h with h | ⟨⟨s, rest⟩, -, h⟩
    · exact h
    rcases Parser.bind_eq_error.1 h with h | ⟨-, -, h⟩
    · exact absurd hopen (Parser.checkEnd_eq_error h).2.1
    · cases h
  have hcloses := Parser.closesAt_statement 0 hts hrun hopen
  rw [Parser.balance_skipLineEnds, Int.add_zero] at hcloses
  refine ⟨hcloses.1, fun closers ends hclosers hends hne => ?_⟩
  obtain ⟨t, behind, hskip⟩ := Parser.exists_cons_of_suffix hts.suffix
  have htail : EndsNested ends := by
    have htail := EndsNested.of_lineEnds hends hne []
    rwa [List.append_nil] at htail
  obtain ⟨s, -, hread⟩ := hcloses.2 hclosers htail
  refine ⟨s, bind_eq_ok.2 ⟨(s, ends), ?_, bind_eq_ok.2 ⟨(), ?_, rfl⟩⟩⟩
  · rw [Parser.skipLineEnds_append_of_cons hskip, ← List.cons_append, ← hskip]
    exact hread
  · rw [checkEnd_eq_ok_iff, ← List.append_nil ends, Parser.skipLineEnds_append hends]
    nofun

end DarjaLang
