import DarjaLang.Proofs.Grammar.Expression.Height
import DarjaLang.Proofs.Grammar.Expression.Nesting
import DarjaLang.Proofs.Grammar.Statement.Parts

/-!
# How deep and how high statements are

Blocks and what stands around the tokens of an expression count toward the same limit.  So an
expression that stands inside `b` blocks has been read at depth `b`, and there are `maxNesting - b`
levels of nesting left for itself.

* `IsStatement.settles`: a statement closes what it opens.
* `Statement.ReadAt` says where the expressions of a statement stand in its tokens: in front of
  each of them, exactly the blocks around it are open.  `IsStatement.readAt` is the result for the
  grammar.
* `nesting_and_height_limited` is the result for what is read.
-/

set_option autoImplicit false

namespace DarjaLang

open Statement Nesting

namespace Nesting

/-- Inside so many blocks, and nothing else is open. -/
def inBlocks (d : Nat) : Nesting := ⟨List.replicate d .block, false⟩

/-- The tokens close what they open inside so many blocks. -/
def Settles (d : Nat) (p : List Token) : Prop :=
  (p.foldl next (inBlocks d)).settled = List.replicate d .block

variable {d : Nat} {t : Token} {n : Nesting} {p q : List Token}

theorem clear_replicate (d : Nat) : Clear (List.replicate d .block) := by
  cases d with
  | zero => exact clear_nil
  | succ d => exact clear_block _

theorem settles_nil (d : Nat) : Settles d [] := rfl

/-- A token that separates. -/
theorem next_inBlocks {k : Token.Kind} (ht : t.kind = k) (hk : separates k = true)
    (hn : n.settled = List.replicate d .block) : next n t = inBlocks d := by
  rw [next_of_separates ht hk, hn, inBlocks]

theorem Settles.cons {k : Token.Kind} (ht : t.kind = k) (hk : separates k = true)
    (hp : Settles d p) : Settles d (t :: p) := by
  rw [Settles, List.foldl_cons, next_inBlocks ht hk rfl]
  exact hp

/-- A name that is assigned is an operand in itself. -/
theorem settled_next {name : String} (ht : t.kind = .identifier name) :
    (next (inBlocks d) t).settled = List.replicate d .block := by
  rw [next_identifier ht]
  exact settled_replicate (clear_replicate d) 0

theorem next_leftBrace (ht : t.kind = .leftBrace) (hn : n.settled = List.replicate d .block) :
    next n t = inBlocks (d + 1) := by
  rw [next, ht, inBlocks, List.replicate_succ, ← hn]

theorem next_rightBrace (ht : t.kind = .rightBrace)
    (hn : n.settled = List.replicate (d + 1) .block) : next n t = inBlocks d := by
  rw [next, ht, hn, inBlocks, List.replicate_succ, List.tail_cons]

end Nesting

namespace Grammar

/-! ## Statements close what they open -/

theorem IsExpr.settles {d : Nat} {p : List Token} {e : Expr} (h : IsExpr .disjunction d p e)
    (hd : d ≤ maxNesting) : Settles d p := by
  obtain ⟨k, hk⟩ := h.leads hd List.length_replicate fun _ => clear_replicate d
  rw [Settles, inBlocks, hk.foldl_eq, settled_replicate (clear_replicate d)]

theorem IsList.settles {d : Nat} {p : List Token} {es : List Expr} (h : IsList d p es)
    (hd : d ≤ maxNesting) : Settles d p := by
  obtain ⟨k, hk⟩ := h.leads hd List.length_replicate (clear_replicate d)
  rw [Settles, inBlocks, hk.foldl_eq, settled_replicate (clear_replicate d)]

/-- Inside the blocks around an expression there is never more open in it than there may be levels
of nesting. -/
theorem IsExpr.length_opened_le {d : Nat} {p front : List Token} {e : Expr}
    (h : IsExpr .disjunction d p e) (hd : d ≤ maxNesting) (hfront : front <+: p) :
    (front.foldl next (inBlocks d)).opened.length ≤ maxNesting := by
  obtain ⟨k, hk⟩ := h.leads hd List.length_replicate fun _ => clear_replicate d
  exact hk.length_foldl_le hfront

/-- Ends of lines separate statements. -/
theorem LineEnds.foldl_eq {d : Nat} {ends : List Token} (h : LineEnds ends) (hne : ends ≠ [])
    {n : Nesting} (hn : n.settled = List.replicate d .block) :
    ends.foldl next n = inBlocks d := by
  induction ends generalizing n with
  | nil => exact absurd rfl hne
  | cons t ends ih =>
    rw [LineEnds, List.forall_mem_cons] at h
    rw [List.foldl_cons, next_inBlocks h.1 rfl hn]
    cases ends with
    | nil => rfl
    | cons u ends => exact ih h.2 (List.cons_ne_nil u ends) rfl

theorem LineEnds.foldl_inBlocks {d : Nat} {ends : List Token} (h : LineEnds ends) :
    ends.foldl next (inBlocks d) = inBlocks d := by
  by_cases hne : ends = []
  · rw [hne]
    rfl
  · exact h.foldl_eq hne rfl

theorem LineEnds.settled {d : Nat} {ends : List Token} (h : LineEnds ends) {n : Nesting}
    (hn : n.settled = List.replicate d .block) :
    (ends.foldl next n).settled = List.replicate d .block := by
  by_cases hne : ends = []
  · rw [hne]
    exact hn
  · rw [h.foldl_eq hne hn]
    rfl

mutual

/-- **A statement closes what it opens.** -/
theorem IsStatement.settles {d : Nat} {p : List Token} {st : Statement} :
    IsStatement d p st → d ≤ maxNesting → Settles d p
  | .assignment ht hu h, hd => by
    rw [Settles, List.foldl_cons, List.foldl_cons, next_inBlocks hu rfl (settled_next ht)]
    exact h.settles hd
  | .expression h, hd => h.settles hd
  | .print ht h, hd => .cons ht rfl (h.settles hd)
  | .conditional ht hcondition hbody hrest, hd => by
    refine .cons ht rfl ?_
    rw [Settles, List.foldl_append, List.foldl_append, hbody.foldl_eq (hcondition.settles hd)]
    exact hrest.settles hd
  | .loop ht hcondition hbody, hd => by
    refine .cons ht rfl ?_
    rw [Settles, List.foldl_append, hbody.foldl_eq (hcondition.settles hd)]
    rfl

theorem IsAlternatives.settles {d : Nat} {p : List Token}
    {branches : List (Expr × List Statement)} {otherwise : Option (List Statement)} :
    IsAlternatives d p branches otherwise → d ≤ maxNesting → Settles d p
  | .none, _ => settles_nil d
  | .otherwise hw hbody, hd => by
    refine .cons hw rfl ?_
    rw [Settles, hbody.foldl_eq rfl]
    rfl
  | .branch hw hi hcondition hbody hrest, hd => by
    refine .cons hw rfl (.cons hi rfl ?_)
    rw [Settles, List.foldl_append, List.foldl_append, hbody.foldl_eq (hcondition.settles hd)]
    exact hrest.settles hd

/-- Behind a block the same blocks are open as in front of it. -/
theorem IsBlock.foldl_eq {d : Nat} {p : List Token} {ss : List Statement} {n : Nesting} :
    IsBlock d p ss → n.settled = List.replicate d .block → p.foldl next n = inBlocks d
  | .braces ho hends hc hd hbody, hn => by
    rw [List.foldl_cons, next_leftBrace ho hn, List.foldl_append, hends.foldl_inBlocks,
      List.foldl_append]
    exact next_rightBrace hc (hbody.settles hd)

theorem IsBody.settles {d : Nat} {p : List Token} {ss : List Statement} :
    IsBody d p ss → d ≤ maxNesting → Settles d p
  | .done hends, _ => hends.settled rfl
  | .last h hends, hd => by
    rw [Settles, List.foldl_append]
    exact hends.settled (h.settles hd)
  | .line h hends hne hrest, hd => by
    rw [Settles, List.foldl_append, List.foldl_append, hends.foldl_eq hne (h.settles hd)]
    exact hrest.settles hd

end

/-! ## Where expressions stand -/

/-- The tokens `q` stand in `p`, behind tokens that lead from one state to the other. -/
def Stands (n n' : Nesting) (q p : List Token) : Prop :=
  ∃ before rest, p = before ++ (q ++ rest) ∧ before.foldl next n = n'

theorem Stands.refl (n : Nesting) (p : List Token) : Stands n n p p := ⟨[], [], by simp, rfl⟩

theorem Stands.trans {n n₁ n₂ : Nesting} {p q r : List Token} (hq : Stands n n₁ q p)
    (hr : Stands n₁ n₂ r q) : Stands n n₂ r p := by
  obtain ⟨before, rest, rfl, rfl⟩ := hq
  obtain ⟨before', rest', rfl, rfl⟩ := hr
  exact ⟨before ++ before', rest' ++ rest, by simp, List.foldl_append⟩

/-- The expression has been read from some of the tokens, with exactly so many blocks open in front
of it. -/
def ReadFrom (n : Nesting) (d : Nat) (p : List Token) (e : Expr) : Prop :=
  ∃ q, Stands n (inBlocks d) q p ∧ IsExpr .disjunction d q e

theorem ReadFrom.of_stands {n n' : Nesting} {d : Nat} {p q : List Token} {e : Expr}
    (hq : Stands n n' q p) (h : ReadFrom n' d q e) : ReadFrom n d p e := by
  obtain ⟨r, hr, hexpr⟩ := h
  exact ⟨r, hq.trans hr, hexpr⟩

theorem IsExpr.readFrom {d : Nat} {p : List Token} {e : Expr} (h : IsExpr .disjunction d p e) :
    ReadFrom (inBlocks d) d p e :=
  ⟨p, .refl _ p, h⟩

theorem IsList.readFrom {d : Nat} {p : List Token} {es : List Expr} :
    IsList d p es → d ≤ maxNesting → ∀ e ∈ es, ReadFrom (inBlocks d) d p e
  | .one h, _ => List.forall_mem_singleton.2 h.readFrom
  | .more (p := p) (q := q) (t := t) h ht hs, hd => by
    have hp : Stands (inBlocks d) (inBlocks d) p (p ++ t :: q) := ⟨[], t :: q, rfl, rfl⟩
    have hq : Stands (inBlocks d) (inBlocks d) q (p ++ t :: q) := by
      refine ⟨p ++ [t], [], by simp, ?_⟩
      rw [List.foldl_append]
      exact next_inBlocks ht rfl (h.settles hd)
    exact List.forall_mem_cons.2
      ⟨.of_stands hp h.readFrom, fun e he => .of_stands hq (hs.readFrom hd e he)⟩

end Grammar

/-- The expressions that the statement contains have been read from the tokens.  In front of each of
them, exactly those blocks are open in which the statement stands and those around the expression
in the statement. -/
def Statement.ReadAt (n : Nesting) (d : Nat) (p : List Token) (st : Statement) : Prop :=
  ∀ b e, InBlocks b e st → d + b ≤ maxNesting ∧ Grammar.ReadFrom n (d + b) p e

namespace Grammar

theorem readAt_of_stands {n n' : Nesting} {d : Nat} {p q : List Token} {st : Statement}
    (hq : Stands n n' q p) (h : st.ReadAt n' d q) : st.ReadAt n d p := by
  intro b e he
  obtain ⟨hd, hexpr⟩ := h b e he
  exact ⟨hd, .of_stands hq hexpr⟩

/-- It is enough to look at the expressions of the statement itself and at its bodies. -/
theorem readAt_intro {n : Nesting} {d : Nat} {p : List Token} {st : Statement}
    (hd : d ≤ maxNesting) (hexpressions : ∀ e ∈ st.expressions, ReadFrom n d p e)
    (hbody : ∀ inner : Statement, inner.InBodyOf st → inner.ReadAt n (d + 1) p) :
    st.ReadAt n d p := by
  intro b e h
  cases h with
  | own he => exact ⟨hd, hexpressions e he⟩
  | body hst h =>
    have hread := hbody _ hst _ e h
    rwa [Nat.add_right_comm, Nat.add_assoc] at hread

mutual

/-- **The expressions of a statement have been read at the depth of the blocks around them.** -/
theorem IsStatement.readAt {d : Nat} {p : List Token} {st : Statement} :
    IsStatement d p st → d ≤ maxNesting → st.ReadAt (inBlocks d) d p
  | .assignment (t := t) (u := u) (p := p) ht hu h, hd => by
    have hp : Stands (inBlocks d) (inBlocks d) p (t :: u :: p) :=
      ⟨[t, u], [], by simp, next_inBlocks hu rfl (settled_next ht)⟩
    exact readAt_intro hd (List.forall_mem_singleton.2 (.of_stands hp h.readFrom)) nofun
  | .expression h, hd => readAt_intro hd (List.forall_mem_singleton.2 h.readFrom) nofun
  | .print (t := t) (p := p) ht h, hd => by
    have hp : Stands (inBlocks d) (inBlocks d) p (t :: p) :=
      ⟨[t], [], by simp, next_inBlocks ht rfl rfl⟩
    exact readAt_intro hd (fun e he => .of_stands hp (h.readFrom hd e he)) nofun
  | .conditional (t := t) (p := p) (q := q) (r := r) ht hcondition hbody hrest, hd => by
    have hsettled := Settles.cons ht rfl (hcondition.settles hd)
    have hblock := hbody.readAt hsettled
    obtain ⟨hbranches, hotherwise⟩ := hrest.readAt hd
    have hp : Stands (inBlocks d) (inBlocks d) p (t :: (p ++ (q ++ r))) :=
      ⟨[t], q ++ r, rfl, next_inBlocks ht rfl rfl⟩
    have hq : Stands (inBlocks d) ((t :: p).foldl next (inBlocks d)) q (t :: (p ++ (q ++ r))) :=
      ⟨t :: p, r, rfl, rfl⟩
    have hr : Stands (inBlocks d) (inBlocks d) r (t :: (p ++ (q ++ r))) := by
      refine ⟨(t :: p) ++ q, [], by simp, ?_⟩
      rw [List.foldl_append, hbody.foldl_eq hsettled]
    refine readAt_intro hd (List.forall_mem_map.2 ?_) fun inner hinner => ?_
    · refine List.forall_mem_cons.2 ⟨.of_stands hp hcondition.readFrom, fun b hb => ?_⟩
      exact .of_stands hr (hbranches b hb).1
    · cases hinner with
      | branch hb h =>
        rcases List.mem_cons.1 hb with rfl | hb
        · exact readAt_of_stands hq (hblock inner h)
        · exact readAt_of_stands hr ((hbranches _ hb).2 inner h)
      | otherwise h => exact readAt_of_stands hr (hotherwise _ rfl inner h)
  | .loop (t := t) (p := p) (q := q) ht hcondition hbody, hd => by
    have hsettled := Settles.cons ht rfl (hcondition.settles hd)
    have hblock := hbody.readAt hsettled
    have hp : Stands (inBlocks d) (inBlocks d) p (t :: (p ++ q)) :=
      ⟨[t], q, rfl, next_inBlocks ht rfl rfl⟩
    have hq : Stands (inBlocks d) ((t :: p).foldl next (inBlocks d)) q (t :: (p ++ q)) :=
      ⟨t :: p, [], by simp, rfl⟩
    refine readAt_intro hd (List.forall_mem_singleton.2 (.of_stands hp hcondition.readFrom))
      fun inner hinner => ?_
    cases hinner with
    | loop h => exact readAt_of_stands hq (hblock inner h)

theorem IsAlternatives.readAt {d : Nat} {p : List Token}
    {branches : List (Expr × List Statement)} {otherwise : Option (List Statement)} :
    IsAlternatives d p branches otherwise → d ≤ maxNesting →
      (∀ b ∈ branches, ReadFrom (inBlocks d) d p b.1 ∧
        ∀ st ∈ b.2, st.ReadAt (inBlocks d) (d + 1) p) ∧
        ∀ body ∈ otherwise, ∀ st ∈ body, st.ReadAt (inBlocks d) (d + 1) p
  | .none, _ => ⟨nofun, nofun⟩
  | .otherwise (w := w) (p := p) hw hbody, _ => by
    have hblock := hbody.readAt (n := inBlocks d) rfl
    have hp : Stands (inBlocks d) (inBlocks d) p (w :: p) :=
      ⟨[w], [], by simp, next_inBlocks hw rfl rfl⟩
    refine ⟨nofun, fun _ heq st hst => ?_⟩
    cases heq
    exact readAt_of_stands hp (hblock st hst)
  | .branch (w := w) (i := i) (p := p) (q := q) (r := r) hw hi hcondition hbody hrest, hd => by
    have hsettled := Settles.cons hw rfl (.cons hi rfl (hcondition.settles hd))
    have hblock := hbody.readAt hsettled
    obtain ⟨hbranches, hotherwise⟩ := hrest.readAt hd
    have hp : Stands (inBlocks d) (inBlocks d) p (w :: i :: (p ++ (q ++ r))) := by
      refine ⟨[w, i], q ++ r, rfl, ?_⟩
      rw [List.foldl_cons, next_inBlocks hw rfl rfl]
      exact next_inBlocks hi rfl rfl
    have hq : Stands (inBlocks d) ((w :: i :: p).foldl next (inBlocks d)) q
        (w :: i :: (p ++ (q ++ r))) :=
      ⟨w :: i :: p, r, rfl, rfl⟩
    have hr : Stands (inBlocks d) (inBlocks d) r (w :: i :: (p ++ (q ++ r))) := by
      refine ⟨(w :: i :: p) ++ q, [], by simp, ?_⟩
      rw [List.foldl_append, hbody.foldl_eq hsettled]
    refine ⟨List.forall_mem_cons.2 ⟨⟨?_, fun st hst => ?_⟩, fun b hb => ⟨?_, fun st hst => ?_⟩⟩,
      fun body heq st hst => ?_⟩
    · exact .of_stands hp hcondition.readFrom
    · exact readAt_of_stands hq (hblock st hst)
    · exact .of_stands hr (hbranches b hb).1
    · exact readAt_of_stands hr ((hbranches b hb).2 st hst)
    · exact readAt_of_stands hr (hotherwise body heq st hst)

theorem IsBlock.readAt {d : Nat} {p : List Token} {ss : List Statement} {n : Nesting} :
    IsBlock d p ss → n.settled = List.replicate d .block → ∀ st ∈ ss, st.ReadAt n (d + 1) p
  | @IsBlock.braces _ o c ends p _ ho hends _ hd hbody, hn => by
    have hp : Stands n (inBlocks (d + 1)) p (o :: (ends ++ (p ++ [c]))) := by
      refine ⟨o :: ends, [c], rfl, ?_⟩
      rw [List.foldl_cons, next_leftBrace ho hn, hends.foldl_inBlocks]
    exact fun st hst => readAt_of_stands hp (hbody.readAt hd st hst)

theorem IsBody.readAt {d : Nat} {p : List Token} {ss : List Statement} :
    IsBody d p ss → d ≤ maxNesting → ∀ st ∈ ss, st.ReadAt (inBlocks d) d p
  | .done _, _ => nofun
  | @IsBody.last _ p ends _ h _, hd => by
    have hp : Stands (inBlocks d) (inBlocks d) p (p ++ ends) := ⟨[], ends, rfl, rfl⟩
    exact List.forall_mem_singleton.2 (readAt_of_stands hp (h.readAt hd))
  | @IsBody.line _ p ends q _ _ h hends hne hrest, hd => by
    have hp : Stands (inBlocks d) (inBlocks d) p (p ++ (ends ++ q)) := ⟨[], ends ++ q, rfl, rfl⟩
    have hq : Stands (inBlocks d) (inBlocks d) q (p ++ (ends ++ q)) := by
      refine ⟨p ++ ends, [], by simp, ?_⟩
      rw [List.foldl_append, hends.foldl_eq hne (h.settles hd)]
    exact List.forall_mem_cons.2 ⟨readAt_of_stands hp (h.readAt hd),
      fun st hst => readAt_of_stands hq (hrest.readAt hd st hst)⟩

end

/-! ## Lines -/

/-- **The expressions of a line have been read at the depth of the blocks around them.** -/
theorem readAt_ofTokens (ts : List Token) : (Statement.ofTokens ts).ReadAt (inBlocks 0) 0 ts := by
  cases hread : Statement.ofTokens? ts with
  | error complaint =>
    rw [ofTokens_eq_invalid_iff.2 hread]
    exact readAt_intro (Nat.zero_le _) nofun nofun
  | ok st =>
    rw [(ofTokens_valid_iff.2 hread).1]
    obtain ⟨before, p, after, hts, hbefore, -, hline⟩ := exists_isLine_of_ofTokens? hread
    obtain ⟨rest, hrest, -⟩ := exists_endsInput ts
    rw [hts] at hrest
    have hp : Stands (inBlocks 0) (inBlocks 0) p ts := by
      refine ⟨before, after ++ rest, hrest.trans ?_, hbefore.foldl_inBlocks⟩
      simp
    cases hline with
    | sentinel => exact readAt_intro (Nat.zero_le _) nofun nofun
    | statement h => exact readAt_of_stands hp (h.readAt (Nat.zero_le _))

/-- The tokens of an expression are read to the end if nothing stands behind them. -/
theorem IsExpr.run_alone {d : Nat} {p : List Token} {e : Expr} (h : IsExpr .disjunction d p e) :
    (Parser.expression (maxNesting - d)).run p = .ok (e, []) := by
  have hfollows : Follows 0 [] := nofun
  have hrun := h.expression_run hfollows
  rwa [List.append_nil] at hrun

/-- **Limits of nesting and height.**  An expression that is read at a depth has no binary node
higher than 256, and it is not higher than 256 and one for each level that is left; at every depth
some tokens are read as an expression of just this height.  An expression of a line that stands
inside `b` blocks has been read at depth `b`, from tokens in front of which these blocks are open
and nothing else; around none of its tokens do more than 64 things stand, blocks included.  So no
expression that is evaluated is higher than 320. -/
theorem nesting_and_height_limited :
    (∀ d ≤ 64, ∀ ts e rest, (Parser.expression (maxNesting - d)).run ts = .ok (e, rest) →
      (∀ op left right position, (Expr.binary op left right position).Within e →
        (Expr.binary op left right position).height ≤ 256) ∧ e.height ≤ 256 + (64 - d)) ∧
    (∀ d ≤ 64, ∃ ts e, (Parser.expression (maxNesting - d)).run ts = .ok (e, []) ∧
      e.height = 256 + (64 - d)) ∧
    ∀ ts,
      (∀ b e, InBlocks b e (Statement.ofTokens ts) → ∃ before p rest, ts = before ++ (p ++ rest) ∧
        (Parser.expression (maxNesting - b)).run p = .ok (e, []) ∧
        Nesting.after before = ⟨List.replicate b .block, false⟩ ∧
        ∀ front, front <+: p → (Nesting.after (before ++ front)).opened.length ≤ 64) ∧
      ∀ inner, Part inner (Statement.ofTokens ts) → ∀ e ∈ inner.expressions, ∀ node : Expr,
        node.Within e → node.height ≤ 320 := by
  refine ⟨fun d _ ts e rest hrun => ?_, fun d hd => ?_, fun ts => ⟨fun b e he => ?_,
    fun inner hinner e he node hnode => ?_⟩⟩
  · obtain ⟨p, -, h⟩ := Parser.reads_isExpr d .disjunction hrun
    exact ⟨h.operatorsLimited, h.height_le⟩
  · obtain ⟨k, hk⟩ := Nat.exists_eq_add_of_le hd
    obtain ⟨p, e, h, hheight⟩ := exists_highest hk.symm
    refine ⟨p, e, h.run_alone, ?_⟩
    rw [hheight, maxOperatorHeight]
    omega
  · obtain ⟨hb, p, ⟨before, rest, hts, hbefore⟩, h⟩ := readAt_ofTokens ts b e he
    rw [Nat.zero_add] at hb hbefore h
    refine ⟨before, p, rest, hts, h.run_alone, hbefore, fun front hfront => ?_⟩
    have hle := h.length_opened_le hb hfront
    rwa [← hbefore, ← List.foldl_append] at hle
  · obtain ⟨b, hb⟩ := hinner.exists_inBlocks he
    obtain ⟨-, p, -, h⟩ := readAt_ofTokens ts b e hb
    have hheight := Nat.le_trans hnode.height_le h.height_le
    rw [maxOperatorHeight, maxNesting] at hheight
    omega

/-- The tokens of `-f(1)`. -/
def negatedCall : List Token :=
  [⟨.minus, "-", ⟨1, 16⟩⟩, ⟨.identifier "f", "f", ⟨1, 17⟩⟩, ⟨.leftParen, "(", ⟨1, 18⟩⟩,
    ⟨.integer "1", "1", ⟨1, 19⟩⟩, ⟨.rightParen, ")", ⟨1, 20⟩⟩]

/-- The tree of `-f(1)`. -/
def negatedCallTree : Expr :=
  .unary .negate (.call "f" [.literal (.integer "1") ⟨1, 19⟩] ⟨1, 17⟩) ⟨1, 16⟩

theorem isExpr_negatedCall {d : Nat} (hd : d + 1 < maxNesting) :
    IsExpr .disjunction d negatedCall negatedCallTree := by
  have hliteral : IsExpr .disjunction (d + 2) [⟨.integer "1", "1", ⟨1, 19⟩⟩]
      (.literal (.integer "1") ⟨1, 19⟩) := .of_primary (.literal rfl) _
  have hcall := IsExpr.call (t := ⟨.identifier "f", "f", ⟨1, 17⟩⟩)
    (o := ⟨.leftParen, "(", ⟨1, 18⟩⟩) (c := ⟨.rightParen, ")", ⟨1, 20⟩⟩) rfl rfl rfl hd
    (.some (.one hliteral))
  have hminus : Token.Kind.minus = UnaryOperator.negate.kind := rfl
  have hunary := IsExpr.unary (t := ⟨.minus, "-", ⟨1, 16⟩⟩) hminus (Nat.lt_of_succ_lt hd)
    (.single rfl hcall)
  exact .single rfl (.single rfl (.single rfl (.single rfl (.single rfl hunary))))

/-- The tokens of `mazal x { kteb -f(1) }`. -/
def nestedLine : List Token :=
  [⟨.keyword .mazal, "mazal", ⟨1, 1⟩⟩, ⟨.identifier "x", "x", ⟨1, 7⟩⟩,
    ⟨.leftBrace, "\x7b", ⟨1, 9⟩⟩, ⟨.keyword .kteb, "kteb", ⟨1, 11⟩⟩] ++ negatedCall ++
    [⟨.rightBrace, "\x7d", ⟨1, 22⟩⟩]

theorem ofTokens_nestedLine : Statement.ofTokens nestedLine =
    .loop (.var "x" ⟨1, 7⟩) [.print [negatedCallTree] ⟨1, 11⟩] ⟨1, 1⟩ := by
  have hprint := IsStatement.print (t := ⟨.keyword .kteb, "kteb", ⟨1, 11⟩⟩) rfl
    (.one (isExpr_negatedCall (d := 1) (by decide)))
  have hblock := IsBlock.braces (o := ⟨.leftBrace, "\x7b", ⟨1, 9⟩⟩)
    (c := ⟨.rightBrace, "\x7d", ⟨1, 22⟩⟩) rfl .nil rfl (by decide) (.last hprint .nil)
  have hline := IsLine.statement (.loop (t := ⟨.keyword .mazal, "mazal", ⟨1, 1⟩⟩) rfl
    (.of_primary (.var (t := ⟨.identifier "x", "x", ⟨1, 7⟩⟩) rfl) _) hblock)
  exact (ofTokens_valid_iff.2 (hline.ofTokens? rfl .nil .nil)).1

/-- An expression inside a block: it is read at depth 1, and the block is open in front of it.  At
the same depth, expressions may be of height 319. -/
theorem nesting_and_height_limited_nestedLine :
    InBlocks 1 negatedCallTree (Statement.ofTokens nestedLine) ∧
    (∃ before p rest, nestedLine = before ++ (p ++ rest) ∧
      (Parser.expression (maxNesting - 1)).run p = .ok (negatedCallTree, []) ∧
      Nesting.after before = ⟨[.block], false⟩ ∧
      (Nesting.after (before ++ p)).opened.length ≤ 64) ∧
    (∀ node : Expr, node.Within negatedCallTree → node.height ≤ 320) ∧
    (negatedCallTree.height = 3 ∧ negatedCallTree.height ≤ 319) ∧
    ∃ ts e, (Parser.expression (maxNesting - 1)).run ts = .ok (e, []) ∧ e.height = 319 := by
  obtain ⟨hbounds, hattained, hlines⟩ := nesting_and_height_limited
  obtain ⟨hplaces, hheights⟩ := hlines nestedLine
  have hinner : InBlocks 1 negatedCallTree (Statement.ofTokens nestedLine) := by
    rw [ofTokens_nestedLine]
    exact .body (.loop List.mem_cons_self) (.own List.mem_cons_self)
  have hpart : Part (.print [negatedCallTree] ⟨1, 11⟩) (Statement.ofTokens nestedLine) := by
    rw [ofTokens_nestedLine]
    exact .inr (.body (.loop List.mem_cons_self))
  obtain ⟨before, p, rest, hts, hrun, hbefore, hopened⟩ := hplaces 1 negatedCallTree hinner
  obtain ⟨-, hheight⟩ := hbounds 1 (by decide) p negatedCallTree [] hrun
  exact ⟨hinner, ⟨before, p, rest, hts, hrun, hbefore, hopened p List.prefix_rfl⟩,
    hheights _ hpart negatedCallTree List.mem_cons_self, ⟨rfl, hheight⟩,
    hattained 1 (by decide)⟩

end Grammar

end DarjaLang
