import DarjaLang.Proofs.Grammar.Expression.Soundness
import DarjaLang.Proofs.Reading.Unfolding

/-!
# What is an expression is read as one

The converse of `Parser.reads_isExpr`: every derivation is found by the parser.

A derivation of a chain may be the beginning of a longer chain, and the parser does not stop
between the two.  So `IsExpr.run` does not say that a derived part is read, but what the parser
*goes on with* behind it (`Level.resume`): a chain is continued, and anything else is handed back.
Then the induction along the derivation goes through, and a chain comes to its end where no operator
of its level follows (`Level.resume_eq_ok`).

`expression_grammar` puts both directions together: the parser reads exactly the derivations, the
tokens behind an expression are left alone, and no tokens have two trees.
-/

set_option autoImplicit false

namespace DarjaLang

namespace Grammar

/-- The next token cannot belong to an expression whose operators all have at least the given
rank: it opens no arguments, and if it is an operator, that operator binds more loosely. -/
def Follows (rank : Nat) (rest : List Token) : Prop :=
  ∀ t ∈ rest.head?, t.kind ≠ .leftParen ∧ ∀ op, t.kind = .operator op → op.level.rank < rank

theorem Follows.cons {rank : Nat} {t : Token} (hparen : t.kind ≠ .leftParen)
    (hop : ∀ op, t.kind = .operator op → op.level.rank < rank) (rest : List Token) :
    Follows rank (t :: rest) := by
  rintro u hu
  cases hu
  exact ⟨hparen, hop⟩

theorem Follows.mono {rank rank' : Nat} (hle : rank ≤ rank') {rest : List Token}
    (h : Follows rank rest) : Follows rank' rest :=
  fun t ht => ⟨(h t ht).1, fun op hop => Nat.lt_of_lt_of_le ((h t ht).2 op hop) hle⟩

theorem Follows.rightParen {c : Token} (hc : c.kind = .rightParen) (rest : List Token) :
    Follows 0 (c :: rest) :=
  .cons (by rw [hc]; nofun) (by rw [hc]; nofun) rest

/-- What the parser of a level goes on to do behind an expression of that level. -/
def Level.resume (levels : Nat) (l : Level) (e : Expr) (rest : List Token) :
    Reading (Expr × List Token) :=
  match l with
  | disjunction => Parser.chainFrom (fun op => op.level = .disjunction)
      (conjunction.parser levels) e e.height rest
  | conjunction => Parser.chainFrom (fun op => op.level = .conjunction)
      (comparison.parser levels) e e.height rest
  | comparison => Parser.chainFrom (fun op => op.level = .comparison) (sum.parser levels) e e.height
      rest
  | sum => Parser.chainFrom (fun op => op.level = .sum) (product.parser levels) e e.height rest
  | product => Parser.chainFrom (fun op => op.level = .product) (operand.parser levels) e e.height
      rest
  | operand | primary => .ok (e, rest)

theorem Level.resume_eq_chainFrom {l m : Level} (hl : l.tighter? = some m) (hne : l ≠ .operand)
    (levels : Nat) (e : Expr) (rest : List Token) :
    l.resume levels e rest =
      Parser.chainFrom (fun op => op.level = l) (m.parser levels) e e.height rest := by
  cases l <;> cases hl
  case operand => exact absurd rfl hne
  all_goals rfl

section Resume

variable {levels : Nat} {accepts : BinaryOperator → Bool} {operand : Parser Expr} {e : Expr}
  {rest : List Token}

/-- A chain ends in front of a token that is none of its operators. -/
theorem chainFrom_eq_ok (h : ∀ t ∈ rest.head?, ∀ op, t.kind = .operator op → accepts op = false) :
    Parser.chainFrom accepts operand e e.height rest = .ok (e, rest) := by
  cases rest with
  | nil => rw [Parser.chainFrom]
  | cons t rest =>
    have hnone : t.kind.operator?.filter accepts = none := by
      rw [Option.filter_eq_none_iff]
      intro op hop
      have ht : t.kind = .operator op := by
        cases hk : t.kind <;> rw [hk] at hop <;> cases hop
        rfl
      rw [h t rfl op ht]
      exact Bool.false_ne_true
    rw [Parser.chainFrom_cons, hnone]

/-- A chain goes on with an operator of its own and an operand. -/
theorem chainFrom_operator {t : Token} {op : BinaryOperator} {ts : List Token} {right : Expr}
    (ht : t.kind = .operator op) (haccepts : accepts op = true)
    (hrun : operand.run ts = .ok (right, rest))
    (hheight : (Expr.binary op e right t.position).height ≤ maxOperatorHeight) :
    Parser.chainFrom accepts operand e e.height (t :: ts) =
      Parser.chainFrom accepts operand (.binary op e right t.position)
        (Expr.binary op e right t.position).height rest := by
  have hsome : t.kind.operator?.filter accepts = some op := by
    rw [ht]
    exact Option.filter_eq_some_iff.2 ⟨rfl, haccepts⟩
  rw [Parser.chainFrom_cons, hsome]
  rw [Expr.height_binary] at hheight ⊢
  dsimp only
  rw [hrun]
  exact if_neg (Nat.not_lt.2 hheight)

theorem Level.resume_eq_ok {l : Level} (h : Follows l.rank rest) :
    l.resume levels e rest = .ok (e, rest) := by
  have hchain : ∀ op : Parser Expr,
      Parser.chainFrom (fun op => op.level = l) op e e.height rest = .ok (e, rest) := by
    refine fun _ => chainFrom_eq_ok fun t ht op hop => decide_eq_false fun hlevel => ?_
    have := (h t ht).2 op hop
    rw [hlevel] at this
    exact Nat.lt_irrefl _ this
  cases l with
  | operand => rfl
  | primary => rfl
  | _ => exact hchain _

end Resume

section Run

variable {d levels : Nat} {p q rest : List Token} {e left right : Expr} {t o c : Token}

theorem run_of_single {l m : Level} (hl : l.tighter? = some m) (hne : l ≠ .operand)
    (hrest : Follows (l.rank + 1) rest)
    (h : (m.parser levels).run (p ++ rest) = m.resume levels e rest) :
    (l.parser levels).run (p ++ rest) = l.resume levels e rest := by
  rw [← Level.rank_tighter hl] at hrest
  rw [Level.resume_eq_ok hrest] at h
  rw [Level.parser_eq_chain hl hne, Level.resume_eq_chainFrom hl hne]
  dsimp only [Parser.chain]
  rw [h]
  rfl

theorem run_of_binary {l m : Level} {op : BinaryOperator} (hl : l.tighter? = some m)
    (hop : op.level = l) (ht : t.kind = .operator op)
    (hheight : (Expr.binary op left right t.position).height ≤ maxOperatorHeight)
    (hrest : Follows (l.rank + 1) rest)
    (hleft : (l.parser levels).run (p ++ t :: (q ++ rest)) =
      l.resume levels left (t :: (q ++ rest)))
    (hright : (m.parser levels).run (q ++ rest) = m.resume levels right rest) :
    (l.parser levels).run (p ++ t :: q ++ rest) =
      l.resume levels (.binary op left right t.position) rest := by
  have hne : l ≠ .operand := by
    rintro rfl
    have := op.rank_level_le
    rw [hop] at this
    exact absurd this (by decide)
  rw [← Level.rank_tighter hl] at hrest
  rw [Level.resume_eq_ok hrest] at hright
  rw [List.append_assoc, List.cons_append, hleft, Level.resume_eq_chainFrom hl hne,
    Level.resume_eq_chainFrom hl hne, chainFrom_operator ht (decide_eq_true hop) hright hheight]

/-- Inside a construct that needs a level of nesting, one is left. -/
theorem deeper_of_lt (hd : d < maxNesting) (opening : Position) :
    Parser.deeper (Parser.innerOperand (maxNesting - d)) opening =
      .ok (Parser.operand (maxNesting - (d + 1))) := by
  have hlevels : maxNesting - d = maxNesting - (d + 1) + 1 := by omega
  rw [hlevels]
  rfl

theorem run_of_unary {op : UnaryOperator} (ht : t.kind = op.kind) (hd : d < maxNesting)
    (h : (Level.operand.parser (maxNesting - (d + 1))).run (p ++ rest) = .ok (e, rest)) :
    (Level.operand.parser (maxNesting - d)).run (t :: p ++ rest) =
      .ok (.unary op e t.position, rest) := by
  have hunary : Parser.unary? t = some op := by
    rw [Parser.unary?, ht]
    cases op <;> rfl
  rw [Level.parser, Parser.operand_eq]
  dsimp only [Parser.operandAround, List.cons_append]
  rw [hunary]
  exact bind_eq_ok.2 ⟨_, deeper_of_lt hd _, bind_eq_ok.2 ⟨_, h, rfl⟩⟩

theorem run_of_literal {v : Literal} (ht : t.kind = v.kind) :
    (Level.primary.parser levels).run (t :: rest) = .ok (.literal v t.position, rest) := by
  dsimp only [Level.parser, Parser.primary, Parser.primaryAt]
  cases v <;> rw [ht] <;> rfl

theorem run_of_identifier {name : String} (ht : t.kind = .identifier name) (ts : List Token) :
    (Level.primary.parser levels).run (t :: ts) =
      Parser.named (Parser.innerOperand levels) name t.position ts := by
  dsimp only [Level.parser, Parser.primary, Parser.primaryAt]
  rw [ht]

theorem named_of_follows {inner : Option (Parser Expr)} {name : String} {position : Position}
    {rank : Nat} (hrest : Follows rank rest) :
    Parser.named inner name position rest = .ok (.var name position, rest) := by
  cases rest with
  | nil => rfl
  | cons t rest =>
    have hparen := (hrest t rfl).1
    dsimp only [Parser.named]
    split
    · next ht => exact absurd ht hparen
    · rfl

theorem close_of_rightParen {opening : Position} {expected : String} {runOut : Complaint}
    (hc : c.kind = .rightParen) :
    Parser.close opening expected runOut (c :: rest) = .ok rest := by
  dsimp only [Parser.close]
  rw [hc]

theorem run_of_group (ho : o.kind = .leftParen) (hc : c.kind = .rightParen) (hd : d < maxNesting)
    (h : (Level.disjunction.parser (maxNesting - (d + 1))).run (p ++ c :: rest) =
      .ok (e, c :: rest)) :
    (Level.primary.parser (maxNesting - d)).run (o :: (p ++ [c]) ++ rest) = .ok (e, rest) := by
  have hts : o :: (p ++ [c]) ++ rest = o :: (p ++ c :: rest) := by simp
  rw [hts]
  dsimp only [Level.parser, Parser.primary, Parser.primaryAt]
  rw [ho]
  exact bind_eq_ok.2 ⟨_, deeper_of_lt hd _, bind_eq_ok.2 ⟨_, h,
    bind_eq_ok.2 ⟨_, close_of_rightParen hc, rfl⟩⟩⟩

/-- Behind a list of expressions comes no comma and nothing that could go on with the last one. -/
def FollowsList (rest : List Token) : Prop :=
  Follows 0 rest ∧ ∀ t ∈ rest.head?, t.kind ≠ .comma

theorem FollowsList.rightParen (hc : c.kind = .rightParen) : FollowsList (c :: rest) :=
  ⟨.rightParen hc rest, by rintro u hu; cases hu; rw [hc]; nofun⟩

section List

variable {item : Parser Expr} {es : List Expr}

theorem separatedFrom_of_one (hrest : ∀ t ∈ rest.head?, t.kind ≠ .comma)
    (h : item.run p = .ok (e, rest)) : Parser.separatedFrom item p = .ok ([e], rest) := by
  rw [Parser.separatedFrom_eq, h]
  cases rest with
  | nil => rfl
  | cons t rest =>
    have ht := hrest t rfl
    dsimp only [bind, Except.bind]
    split
    · contradiction
    · rfl

theorem separatedFrom_of_more (ht : t.kind = .comma) (h : item.run p = .ok (e, t :: q))
    (hs : Parser.separatedFrom item q = .ok (es, rest)) :
    Parser.separatedFrom item p = .ok (e :: es, rest) := by
  rw [Parser.separatedFrom_eq, h]
  dsimp only [bind, Except.bind]
  rw [ht]
  dsimp only
  rw [hs]
  rfl

end List

/-- An argument list is empty, or it does not start with a closing parenthesis. -/
theorem run_of_call {name : String} {es : List Expr} (ht : t.kind = .identifier name)
    (ho : o.kind = .leftParen) (hc : c.kind = .rightParen) (hd : d < maxNesting)
    (h : p = [] ∧ es = [] ∨ (∃ u q, p = u :: q ∧ u.kind ≠ .rightParen) ∧
      Parser.separatedFrom (Level.disjunction.parser (maxNesting - (d + 1))) (p ++ c :: rest) =
        .ok (es, c :: rest)) :
    (Level.primary.parser (maxNesting - d)).run (t :: o :: (p ++ [c]) ++ rest) =
      .ok (.call name es t.position, rest) := by
  have hts : t :: o :: (p ++ [c]) ++ rest = t :: o :: (p ++ c :: rest) := by simp
  rw [hts, run_of_identifier ht]
  dsimp only [Parser.named]
  rw [ho]
  refine bind_eq_ok.2 ⟨(es, rest), bind_eq_ok.2 ⟨_, deeper_of_lt hd _, ?_⟩, rfl⟩
  rcases h with ⟨rfl, rfl⟩ | ⟨⟨u, q, rfl, hu⟩, hrun⟩
  · have hstart : Parser.startsWithClose (c :: rest) = true := by
      dsimp only [Parser.startsWithClose]
      rw [hc]
    exact if_pos hstart
  · have hstart : ¬ Parser.startsWithClose (u :: q ++ c :: rest) = true := by
      dsimp only [Parser.startsWithClose, List.cons_append]
      split
      · next hk => exact absurd hk hu
      · exact Bool.false_ne_true
    refine (if_neg hstart).trans ?_
    exact bind_eq_ok.2 ⟨_, hrun, bind_eq_ok.2 ⟨_, close_of_rightParen hc, rfl⟩⟩

end Run

/-- No operator stands in front of a primary. -/
theorem IsExpr.operandAround_run {inner : Option (Parser Expr)} {d : Nat} {p : List Token}
    {e : Expr} (h : IsExpr .primary d p e) (rest : List Token) :
    (Parser.operandAround inner).run (p ++ rest) = (Parser.primary inner).run (p ++ rest) := by
  have hunary : ∃ t q, p = t :: q ∧ Parser.unary? t = none := by
    cases h with
    | single hl => cases hl
    | binary hl => cases hl
    | literal ht =>
      refine ⟨_, _, rfl, ?_⟩
      rw [Parser.unary?, ht]
      rename_i v
      cases v <;> rfl
    | var ht => exact ⟨_, _, rfl, by rw [Parser.unary?, ht]⟩
    | call ht => exact ⟨_, _, rfl, by rw [Parser.unary?, ht]⟩
    | group ho => exact ⟨_, _, rfl, by rw [Parser.unary?, ho]⟩
  obtain ⟨t, q, rfl, ht⟩ := hunary
  dsimp only [Parser.operandAround, List.cons_append]
  rw [ht]

mutual

/-- A derived part is read, and the parser of its level goes on behind it. -/
theorem IsExpr.run {l : Level} {d : Nat} {p rest : List Token} {e : Expr} :
    IsExpr l d p e → Follows (l.rank + 1) rest →
      (l.parser (maxNesting - d)).run (p ++ rest) = l.resume (maxNesting - d) e rest
  | .single hl h, hrest => by
    have hm := h.run (hrest.mono (by rw [Level.rank_tighter hl]; omega))
    by_cases hne : l = .operand
    · subst hne
      cases hl
      rw [Level.parser, Parser.operand_eq, h.operandAround_run]
      exact hm
    · exact run_of_single hl hne hrest hm
  | .binary hl hop ht hleft hright hheight, hrest => by
    refine run_of_binary hl hop ht hheight hrest ?_
      (hright.run (hrest.mono (by rw [Level.rank_tighter hl]; omega)))
    refine hleft.run (.cons (by rw [ht]; nofun) (fun op hk => ?_) _)
    rw [ht] at hk
    cases hk
    rw [hop]
    exact Nat.lt_succ_self _
  | .unary ht hd h, hrest => run_of_unary ht hd (h.run hrest)
  | .literal ht, _ => run_of_literal ht
  | .var ht, hrest => by
    rw [List.singleton_append, run_of_identifier ht]
    exact named_of_follows hrest
  | .call ht ho hc hd h, _ => run_of_call ht ho hc hd (h.run hc)
  | .group ho hc hd h, _ => by
    have hclose := Follows.rightParen hc rest
    refine run_of_group ho hc hd ?_
    rw [h.run (hclose.mono (Nat.zero_le _)), Level.resume_eq_ok (l := .disjunction) hclose]

theorem IsList.run {d : Nat} {p rest : List Token} {es : List Expr} :
    IsList d p es → FollowsList rest →
      Parser.separatedFrom (Level.disjunction.parser (maxNesting - d)) (p ++ rest) =
        .ok (es, rest)
  | .one h, hrest => by
    refine separatedFrom_of_one hrest.2 ?_
    rw [h.run (hrest.1.mono (Nat.zero_le _)), Level.resume_eq_ok (l := .disjunction) hrest.1]
  | .more h ht hs, hrest => by
    rename_i q t _ _
    have hcomma : Follows 0 (t :: (q ++ rest)) :=
      .cons (by rw [ht]; nofun) (by rw [ht]; nofun) _
    rw [List.append_assoc, List.cons_append]
    refine separatedFrom_of_more ht ?_ (hs.run hrest)
    rw [h.run (hcomma.mono (Nat.zero_le _)), Level.resume_eq_ok (l := .disjunction) hcomma]

theorem IsArguments.run {d : Nat} {p rest : List Token} {es : List Expr} {c : Token} :
    IsArguments d p es → c.kind = .rightParen →
      p = [] ∧ es = [] ∨ (∃ u q, p = u :: q ∧ u.kind ≠ .rightParen) ∧
        Parser.separatedFrom (Level.disjunction.parser (maxNesting - d)) (p ++ c :: rest) =
          .ok (es, c :: rest)
  | .none, _ => .inl ⟨rfl, rfl⟩
  | .some h, hc => .inr ⟨h.exists_cons, h.run (.rightParen hc)⟩

end

theorem IsExpr.parser_run {l : Level} {d : Nat} {p rest : List Token} {e : Expr}
    (h : IsExpr l d p e) (hrest : Follows l.rank rest) :
    (l.parser (maxNesting - d)).run (p ++ rest) = .ok (e, rest) := by
  rw [h.run (hrest.mono (Nat.le_succ _)), Level.resume_eq_ok hrest]

/-- An expression ends where the next token is neither a binary operator nor an opening
parenthesis. -/
theorem follows_zero_iff {rest : List Token} :
    Follows 0 rest ↔ ∀ t ∈ rest.head?, t.kind ≠ .leftParen ∧ ∀ op, t.kind ≠ .operator op := by
  refine forall₂_congr fun t _ => and_congr_right fun _ => forall_congr' fun op => ?_
  exact ⟨fun h hop => Nat.not_lt_zero _ (h hop), fun h hop => absurd hop h⟩

/-- **Reading an expression and deriving it are the same.**  At every depth the parser only reads
what the grammar derives; it reads every derivation that the next tokens cannot prolong, and leaves
these tokens; and the tree is determined by the tokens. -/
theorem expression_grammar (d : Nat) :
    (∀ ts e rest, (Parser.expression (maxNesting - d)).run ts = .ok (e, rest) →
      ∃ p, ts = p ++ rest ∧ IsExpr .disjunction d p e) ∧
    (∀ p e rest, IsExpr .disjunction d p e →
      (∀ t ∈ rest.head?, t.kind ≠ .leftParen ∧ ∀ op, t.kind ≠ .operator op) →
      (Parser.expression (maxNesting - d)).run (p ++ rest) = .ok (e, rest)) ∧
    ∀ p e e', IsExpr .disjunction d p e → IsExpr .disjunction d p e' → e = e' := by
  refine ⟨fun ts e rest h => Parser.reads_isExpr d .disjunction h, fun p e rest h hrest => ?_,
    fun p e e' h h' => ?_⟩
  · exact h.parser_run (follows_zero_iff.2 hrest)
  · have hend : Follows 0 [] := nofun
    have hrun := h.parser_run hend
    rw [h'.parser_run hend] at hrun
    cases hrun
    rfl

/-- An operator in front of a name at the last depth that allows one, up to a closing
parenthesis. -/
theorem expression_grammar_negation :
    IsExpr .disjunction 63 [⟨.minus, "-", ⟨1, 1⟩⟩, ⟨.identifier "x", "x", ⟨1, 2⟩⟩]
        (.unary .negate (.var "x" ⟨1, 2⟩) ⟨1, 1⟩) ∧
      (Parser.expression (maxNesting - 63)).run
          [⟨.minus, "-", ⟨1, 1⟩⟩, ⟨.identifier "x", "x", ⟨1, 2⟩⟩, ⟨.rightParen, ")", ⟨1, 3⟩⟩] =
        .ok (.unary .negate (.var "x" ⟨1, 2⟩) ⟨1, 1⟩, [⟨.rightParen, ")", ⟨1, 3⟩⟩]) := by
  have hderived : IsExpr .disjunction 63
      [⟨.minus, "-", ⟨1, 1⟩⟩, ⟨.identifier "x", "x", ⟨1, 2⟩⟩]
      (.unary .negate (.var "x" ⟨1, 2⟩) ⟨1, 1⟩) :=
    .single rfl <| .single rfl <| .single rfl <| .single rfl <| .single rfl <|
      .unary rfl (by decide) (.single rfl (.var rfl))
  refine ⟨hderived, (expression_grammar 63).2.1 _ _ [⟨.rightParen, ")", ⟨1, 3⟩⟩] hderived ?_⟩
  rintro t ht
  cases ht
  exact ⟨nofun, nofun⟩

end Grammar

end DarjaLang
