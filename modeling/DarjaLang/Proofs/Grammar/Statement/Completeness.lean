import DarjaLang.Proofs.Grammar.Expression.Completeness
import DarjaLang.Proofs.Grammar.Statement.Soundness

/-!
# What is a statement is read as one

The converse of `Parser.reads_isLine`: every derivation of a statement is found by the parser,
provided that what comes next ends the statement (`EndsStatement`).

`ofTokens_eq_iff` is the result for whole lines: the statement that a line stands for is valid
exactly if the line, up to an explicit end of the input, consists of ends of lines, the tokens of
one derivation and ends of lines again.
-/

set_option autoImplicit false

namespace DarjaLang

open Grammar

namespace Grammar

/-- What may come behind a statement: the end of its line, of its block or of the input. -/
def EndsStatement (rest : List Token) : Prop :=
  ∀ t ∈ rest.head?, t.kind = .endOfLine ∨ t.kind = .rightBrace ∨ t.kind = .endOfInput

theorem EndsStatement.ne {rest : List Token} (h : EndsStatement rest) {k : Token.Kind}
    (hline : k ≠ .endOfLine) (hbrace : k ≠ .rightBrace) (hinput : k ≠ .endOfInput) :
    ∀ t ∈ rest.head?, t.kind ≠ k := by
  rintro t ht rfl
  rcases h t ht with hk | hk | hk
  · exact hline hk
  · exact hbrace hk
  · exact hinput hk

theorem EndsStatement.follows {rest : List Token} (h : EndsStatement rest) : Follows 0 rest :=
  fun t ht => ⟨h.ne (k := .leftParen) nofun nofun nofun t ht,
    fun op hop => absurd hop (h.ne (k := .operator op) nofun nofun nofun t ht)⟩

theorem EndsStatement.followsList {rest : List Token} (h : EndsStatement rest) :
    FollowsList rest :=
  ⟨h.follows, h.ne nofun nofun nofun⟩

theorem Follows.leftBrace {o : Token} (ho : o.kind = .leftBrace) (rest : List Token) :
    Follows 0 (o :: rest) :=
  .cons (by rw [ho]; nofun) (by rw [ho]; nofun) rest

end Grammar

namespace Parser

section Block

variable {item : Parser Statement} {opening : Position} {rest : List Token}

theorem blockFrom_of_statement {t : Token} {ts last : List Token} {s : Statement}
    {ss : List Statement} (ht : startsStatement t.kind = true)
    (hrun : item.run (t :: ts) = .ok (s, last)) (hnested : checkNested s = .ok s)
    (hfollower : checkFollower opening last = .ok ())
    (hrest : blockFrom item opening last = .ok (ss, rest)) :
    blockFrom item opening (t :: ts) = .ok (s :: ss, rest) := by
  have hne : ∀ {k}, startsStatement k = false → t.kind ≠ k := fun hk h => by
    rw [h, hk] at ht
    cases ht
  rw [blockFrom_cons_of_ne (hne rfl) (hne rfl) (hne rfl)]
  exact bind_eq_ok.2 ⟨_, hrun, bind_eq_ok.2 ⟨_, hnested, bind_eq_ok.2 ⟨_, hfollower,
    bind_eq_ok.2 ⟨_, hrest, rfl⟩⟩⟩⟩

end Block

end Parser

namespace Grammar

section Run

variable {d : Nat} {p q r rest ends : List Token} {t u o c w i : Token} {e : Expr}
  {s : Statement} {ss body : List Statement} {branches : List (Expr × List Statement)}
  {otherwise : Option (List Statement)}

/-- A nested statement is no sentinel. -/
theorem IsStatement.checkNested (h : IsStatement d p s) : Parser.checkNested s = .ok s := by
  cases h <;> rfl

theorem IsExpr.expression_run (h : IsExpr .disjunction d p e) (hrest : Follows 0 rest) :
    (Parser.expression (maxNesting - d)).run (p ++ rest) = .ok (e, rest) :=
  h.parser_run hrest

theorem run_of_guarded (h : IsExpr .disjunction d p e)
    (hq : ∃ o q', q = o :: q' ∧ o.kind = .leftBrace)
    (hbody : (Parser.block (maxNesting - d)).run (q ++ rest) = .ok (body, rest)) :
    (Parser.guarded (Parser.expression (maxNesting - d)) (Parser.block (maxNesting - d))).run
      (p ++ (q ++ rest)) = .ok ((e, body), rest) := by
  obtain ⟨o, q', rfl, ho⟩ := hq
  exact bind_eq_ok.2 ⟨_, h.expression_run (.leftBrace ho _),
    bind_eq_ok.2 ⟨_, hbody, rfl⟩⟩

theorem IsBlock.exists_cons (h : IsBlock d p ss) : ∃ o q, p = o :: q ∧ o.kind = .leftBrace := by
  cases h with
  | braces ho => exact ⟨_, _, rfl, ho⟩

theorem target?_of_ne (hrest : ∀ u ∈ rest.head?, u.kind ≠ .assign) :
    Parser.target? (t :: rest) = none := by
  rw [Parser.target?.eq_def]
  split
  · next heq =>
    cases heq
    split
    · next hu => exact absurd hu (hrest _ rfl)
    · rfl
  · rfl

/-- The statement parser at a depth. -/
theorem statement_run_cons (t : Token) (ts : List Token) :
    (Parser.statement (maxNesting - d)).run (t :: ts) =
      Parser.statementAt (Parser.expression (maxNesting - d)) (Parser.block (maxNesting - d)) t
        ts := by
  rw [Parser.statement_eq]
  rfl

theorem run_of_assignment {name : String} (ht : t.kind = .identifier name) (hu : u.kind = .assign)
    (h : IsExpr .disjunction d p e) (hrest : Follows 0 rest) :
    (Parser.statement (maxNesting - d)).run (t :: u :: p ++ rest) =
      .ok (.assignment name e t.position, rest) := by
  have htarget : Parser.target? (t :: u :: (p ++ rest)) = some (name, p ++ rest) := by
    dsimp only [Parser.target?]
    rw [ht, hu]
  rw [List.cons_append, List.cons_append, statement_run_cons]
  dsimp only [Parser.statementAt]
  rw [ht]
  dsimp only [Parser.simple]
  rw [htarget]
  exact bind_eq_ok.2 ⟨_, h.expression_run hrest, rfl⟩

theorem run_of_expression (h : IsExpr .disjunction d (t :: p) e) (hrest : EndsStatement rest) :
    (Parser.statement (maxNesting - d)).run (t :: p ++ rest) =
      .ok (.expression e t.position, rest) := by
  have ht := h.inExpression t List.mem_cons_self
  have htarget : Parser.target? (t :: (p ++ rest)) = none := by
    refine target?_of_ne fun u hu => ?_
    cases p with
    | nil => exact hrest.ne (k := .assign) nofun nofun nofun u hu
    | cons v p =>
      cases hu
      have hu := h.inExpression u (by simp)
      intro hk
      rw [hk] at hu
      cases hu
  have hsimple : (Parser.simple (Parser.expression (maxNesting - d)) t.position).run
      (t :: (p ++ rest)) = .ok (.expression e t.position, rest) := by
    dsimp only [Parser.simple]
    rw [htarget]
    exact bind_eq_ok.2 ⟨_, h.expression_run hrest.follows, rfl⟩
  rw [List.cons_append, statement_run_cons]
  rw [Parser.statementAt]
  split
  all_goals first
    | exact hsimple
    | next hk => rw [hk] at ht; cases ht

theorem run_of_print {es : List Expr} (ht : t.kind = .keyword .kteb) (h : IsList d p es)
    (hrest : EndsStatement rest) :
    (Parser.statement (maxNesting - d)).run (t :: p ++ rest) =
      .ok (.print es t.position, rest) := by
  rw [List.cons_append, statement_run_cons]
  dsimp only [Parser.statementAt]
  rw [ht]
  exact bind_eq_ok.2 ⟨_, h.run hrest.followsList, rfl⟩

theorem run_of_conditional (ht : t.kind = .keyword .ila)
    (hguarded : (Parser.guarded (Parser.expression (maxNesting - d))
      (Parser.block (maxNesting - d))).run q = .ok ((e, body), r))
    (hrest : Parser.alternatives (Parser.guarded (Parser.expression (maxNesting - d))
      (Parser.block (maxNesting - d))) (Parser.block (maxNesting - d)) r =
        .ok ((branches, otherwise), rest)) :
    (Parser.statement (maxNesting - d)).run (t :: q) =
      .ok (.conditional ((e, body) :: branches) otherwise t.position, rest) := by
  rw [statement_run_cons]
  dsimp only [Parser.statementAt]
  rw [ht]
  exact bind_eq_ok.2 ⟨_, hguarded, bind_eq_ok.2 ⟨_, hrest, rfl⟩⟩

theorem run_of_loop (ht : t.kind = .keyword .mazal)
    (hguarded : (Parser.guarded (Parser.expression (maxNesting - d))
      (Parser.block (maxNesting - d))).run q = .ok ((e, body), rest)) :
    (Parser.statement (maxNesting - d)).run (t :: q) = .ok (.loop e body t.position, rest) := by
  rw [statement_run_cons]
  dsimp only [Parser.statementAt]
  rw [ht]
  exact bind_eq_ok.2 ⟨_, hguarded, rfl⟩

section Alternatives

variable {branch : Parser (Expr × List Statement)} {block : Parser (List Statement)}

theorem alternatives_of_ends (hrest : EndsStatement rest) :
    Parser.alternatives branch block rest = .ok (([], none), rest) := by
  cases rest with
  | nil => rw [Parser.alternatives]
  | cons t rest =>
    rw [Parser.alternatives_cons]
    rcases hrest t rfl with ht | ht | ht <;> rw [ht]

theorem alternatives_of_otherwise (hw : w.kind = .keyword .wila)
    (hp : ∃ o p', p = o :: p' ∧ o.kind = .leftBrace)
    (hbody : block.run (p ++ rest) = .ok (body, rest)) :
    Parser.alternatives branch block (w :: (p ++ rest)) = .ok (([], some body), rest) := by
  obtain ⟨o, p', rfl, ho⟩ := hp
  rw [List.cons_append, Parser.alternatives_cons, hw]
  dsimp only
  rw [ho]
  exact bind_eq_ok.2 ⟨_, hbody, rfl⟩

theorem alternatives_of_branch (hw : w.kind = .keyword .wila) (hi : i.kind = .keyword .ila)
    (hbranch : branch.run p = .ok ((e, body), q))
    (hrest : Parser.alternatives branch block q = .ok ((branches, otherwise), rest)) :
    Parser.alternatives branch block (w :: i :: p) =
      .ok (((e, body) :: branches, otherwise), rest) := by
  rw [Parser.alternatives_cons, hw]
  dsimp only
  rw [hi]
  exact bind_eq_ok.2 ⟨_, hbranch, bind_eq_ok.2 ⟨_, hrest, rfl⟩⟩

end Alternatives

theorem run_of_block (ho : o.kind = .leftBrace) (hends : LineEnds ends) (hd : d < maxNesting)
    (hbody : Parser.blockFrom (Parser.statement (maxNesting - (d + 1))) o.position
      (p ++ c :: rest) = .ok (ss, rest)) :
    (Parser.block (maxNesting - d)).run (o :: (ends ++ (p ++ [c])) ++ rest) =
      .ok (ss, rest) := by
  have hts : o :: (ends ++ (p ++ [c])) ++ rest = o :: (ends ++ (p ++ c :: rest)) := by simp
  have hlevels : maxNesting - d = maxNesting - (d + 1) + 1 := by omega
  rw [hts, hlevels]
  dsimp only [Parser.block, Parser.blockAround]
  rw [ho]
  refine bind_eq_ok.2 ⟨_, rfl, ?_⟩
  rw [Parser.blockFrom_append hends]
  exact hbody

/-- Behind a statement of a block comes the end of its line or of the block. -/
def EndsNested (rest : List Token) : Prop :=
  ∃ t q, rest = t :: q ∧ (t.kind = .endOfLine ∨ t.kind = .rightBrace)

theorem EndsNested.endsStatement (h : EndsNested rest) : EndsStatement rest := by
  obtain ⟨t, q, rfl, ht⟩ := h
  rintro u hu
  cases hu
  exact ht.imp_right .inl

theorem EndsNested.of_lineEnds (hends : LineEnds ends) (hne : ends ≠ []) (q : List Token) :
    EndsNested (ends ++ q) := by
  cases ends with
  | nil => exact absurd rfl hne
  | cons t ends => exact ⟨t, _, rfl, .inl (hends t List.mem_cons_self)⟩

theorem EndsNested.of_rightBrace (hends : LineEnds ends) (hc : c.kind = .rightBrace)
    (rest : List Token) : EndsNested (ends ++ c :: rest) := by
  by_cases hne : ends = []
  · subst hne
    exact ⟨c, rest, rfl, .inr hc⟩
  · exact .of_lineEnds hends hne _

theorem blockFrom_of_isStatement {opening : Position} (h : IsStatement d p s)
    (hq : EndsNested q)
    (hrun : (Parser.statement (maxNesting - d)).run (p ++ q) = .ok (s, q))
    (hrest : Parser.blockFrom (Parser.statement (maxNesting - d)) opening q = .ok (ss, rest)) :
    Parser.blockFrom (Parser.statement (maxNesting - d)) opening (p ++ q) =
      .ok (s :: ss, rest) := by
  obtain ⟨t, q', rfl, ht⟩ := hq
  have hfollower : Parser.checkFollower opening (t :: q') = .ok () := by
    dsimp only [Parser.checkFollower]
    rcases ht with ht | ht <;> rw [ht]
  obtain ⟨u, p', rfl, -, hu⟩ := h.exists_cons
  exact Parser.blockFrom_of_statement hu hrun h.checkNested hfollower hrest

end Run

mutual

/-- A derived statement is read if what comes next ends it. -/
theorem IsStatement.run {d : Nat} {p rest : List Token} {s : Statement} :
    IsStatement d p s → EndsStatement rest →
      (Parser.statement (maxNesting - d)).run (p ++ rest) = .ok (s, rest)
  | .assignment ht hu h, hrest => run_of_assignment ht hu h hrest.follows
  | .expression h, hrest => run_of_expression h hrest
  | .print ht h, hrest => run_of_print ht h hrest
  | .conditional ht hcondition hbody halternatives, hrest => by
    rw [List.cons_append, List.append_assoc, List.append_assoc]
    exact run_of_conditional ht (run_of_guarded hcondition hbody.exists_cons hbody.run)
      (halternatives.run hrest)
  | .loop ht hcondition hbody, _ => by
    rw [List.cons_append, List.append_assoc]
    exact run_of_loop ht (run_of_guarded hcondition hbody.exists_cons hbody.run)

theorem IsAlternatives.run {d : Nat} {p rest : List Token}
    {branches : List (Expr × List Statement)} {otherwise : Option (List Statement)} :
    IsAlternatives d p branches otherwise → EndsStatement rest →
      Parser.alternatives (Parser.guarded (Parser.expression (maxNesting - d))
        (Parser.block (maxNesting - d))) (Parser.block (maxNesting - d)) (p ++ rest) =
        .ok ((branches, otherwise), rest)
  | .none, hrest => alternatives_of_ends hrest
  | .otherwise hw hbody, _ => alternatives_of_otherwise hw hbody.exists_cons hbody.run
  | .branch hw hi hcondition hbody hmore, hrest => by
    rw [List.cons_append, List.cons_append, List.append_assoc, List.append_assoc]
    exact alternatives_of_branch hw hi (run_of_guarded hcondition hbody.exists_cons hbody.run)
      (hmore.run hrest)

theorem IsBlock.run {d : Nat} {p rest : List Token} {ss : List Statement} :
    IsBlock d p ss → (Parser.block (maxNesting - d)).run (p ++ rest) = .ok (ss, rest)
  | .braces ho hends hc hd hbody => run_of_block ho hends hd (hbody.run hc)

theorem IsBody.run {d : Nat} {p rest : List Token} {ss : List Statement} {c : Token}
    {opening : Position} : IsBody d p ss → c.kind = .rightBrace →
      Parser.blockFrom (Parser.statement (maxNesting - d)) opening (p ++ c :: rest) =
        .ok (ss, rest)
  | .done hends, hc => by
    rw [Parser.blockFrom_append hends, Parser.blockFrom_of_rightBrace hc]
  | .last h hends, hc => by
    have hq := EndsNested.of_rightBrace hends hc rest
    rw [List.append_assoc]
    exact blockFrom_of_isStatement h hq (h.run hq.endsStatement)
      ((Parser.blockFrom_append hends _).trans (Parser.blockFrom_of_rightBrace hc _))
  | .line h hends hne hrest, hc => by
    have hq := EndsNested.of_lineEnds hends hne
    rw [List.append_assoc, List.append_assoc]
    exact blockFrom_of_isStatement h (hq _) (h.run (hq _).endsStatement)
      ((Parser.blockFrom_append hends _).trans (hrest.run hc))

end

/-! ## Lines -/

/-- The tokens in front of an explicit end of the input. -/
def beforeInputEnd (ts : List Token) : List Token :=
  ts.takeWhile fun t => !(t.kind matches .endOfInput)

/-- What stands behind the tokens of a line: nothing, or the explicit end of the input. -/
def EndsInput (rest : List Token) : Prop := ∀ t ∈ rest.head?, t.kind = .endOfInput

theorem EndsInput.nil : EndsInput [] := nofun

theorem beforeInputEnd_append {us rest : List Token} (hus : ∀ t ∈ us, t.kind ≠ .endOfInput)
    (hrest : EndsInput rest) : beforeInputEnd (us ++ rest) = us := by
  have hin : ∀ t ∈ us, (!(t.kind matches .endOfInput)) = true := by
    intro t ht
    have hk := hus t ht
    split
    · contradiction
    · rfl
  rw [beforeInputEnd, List.takeWhile_append_of_pos hin]
  cases rest with
  | nil => rw [List.takeWhile_nil, List.append_nil]
  | cons t rest => simp [hrest t rfl]

theorem exists_endsInput (ts : List Token) :
    ∃ rest, ts = beforeInputEnd ts ++ rest ∧ EndsInput rest := by
  refine ⟨_, (List.takeWhile_append_dropWhile).symm, fun t ht => ?_⟩
  have hstop := List.head?_dropWhile_not (fun t : Token => !(t.kind matches .endOfInput)) ts
  rw [Option.mem_def.1 ht] at hstop
  dsimp only at hstop
  split at hstop
  · assumption
  · cases hstop

/-- A line may go on with ends of lines up to the end of the input, and with nothing else. -/
theorem checkEnd_eq_ok_iff {ts : List Token} :
    Parser.checkEnd ts = .ok () ↔ EndsInput (Parser.skipLineEnds ts) := by
  rw [Parser.checkEnd]
  cases Parser.skipLineEnds ts with
  | nil => exact ⟨fun _ => .nil, fun _ => rfl⟩
  | cons t behind =>
    dsimp only
    constructor
    · intro h u hu
      cases hu
      split at h
      · assumption
      all_goals cases h
    · intro h
      rw [h t rfl]

/-- The sentinel and every statement are read as what they are if their line ends behind them. -/
theorem IsLine.run {d : Nat} {p rest : List Token} {s : Statement} (h : IsLine d p s)
    (hrest : ∀ t ∈ rest.head?, t.kind = .endOfLine ∨ t.kind = .endOfInput) :
    (Parser.statement (maxNesting - d)).run (p ++ rest) = .ok (s, rest) := by
  cases h with
  | @sentinel t ht =>
    rw [List.singleton_append, statement_run_cons]
    dsimp only [Parser.statementAt]
    rw [ht]
    cases rest with
    | nil => rfl
    | cons u rest =>
      refine if_pos ?_
      rcases hrest u rfl with hu | hu <;> rw [Token.isTerminator, hu] <;> rfl
  | statement h => exact h.run fun t ht => (hrest t ht).imp_right .inr

/-- What is read from a line has a derivation there, and nothing is left over. -/
theorem exists_isLine_of_ofTokens? {ts : List Token} {s : Statement}
    (h : Statement.ofTokens? ts = .ok s) :
    ∃ before p after, beforeInputEnd ts = before ++ p ++ after ∧ LineEnds before ∧
      LineEnds after ∧ IsLine 0 p s := by
  obtain ⟨⟨s', rest⟩, hrun, hread⟩ := bind_eq_ok.1 h
  obtain ⟨⟨⟩, hend, hread⟩ := bind_eq_ok.1 hread
  cases hread
  obtain ⟨p, hused, hline⟩ := Parser.reads_isLine 0 hrun
  obtain ⟨before, hts, hbefore, -⟩ := Parser.exists_lineEnds ts
  obtain ⟨after, hrest, hafter, -⟩ := Parser.exists_lineEnds rest
  refine ⟨before, p, after, ?_, hbefore, hafter, hline⟩
  have hsplit : ts = before ++ p ++ after ++ Parser.skipLineEnds rest := by
    rw [List.append_assoc, ← hrest, List.append_assoc, ← hused, ← hts]
  rw [hsplit]
  refine beforeInputEnd_append (fun u hu => ?_) (checkEnd_eq_ok_iff.1 hend)
  simp only [List.mem_append] at hu
  rcases hu with (hu | hu) | hu
  · simp [hbefore u hu]
  · exact hline.ne_endOfInput u hu
  · simp [hafter u hu]

/-- A derivation on a line of its own is read. -/
theorem IsLine.ofTokens? {ts before p after : List Token} {s : Statement} (h : IsLine 0 p s)
    (hts : beforeInputEnd ts = before ++ p ++ after) (hbefore : LineEnds before)
    (hafter : LineEnds after) : Statement.ofTokens? ts = .ok s := by
  obtain ⟨rest, hsplit, hrest⟩ := exists_endsInput ts
  rw [hts] at hsplit
  have hfollower : ∀ u ∈ (after ++ rest).head?, u.kind = .endOfLine ∨ u.kind = .endOfInput := by
    intro u hu
    cases after with
    | nil => exact .inr (hrest u hu)
    | cons v after => cases hu; exact .inl (hafter _ List.mem_cons_self)
  have hskip : Parser.skipLineEnds ts = p ++ (after ++ rest) := by
    obtain ⟨t, q, rfl, -, hne⟩ := h.exists_cons
    rw [hsplit, List.append_assoc, List.append_assoc, Parser.skipLineEnds_append hbefore,
      List.cons_append, Parser.skipLineEnds_of_ne hne]
  have hend : EndsInput (Parser.skipLineEnds (after ++ rest)) := by
    rw [Parser.skipLineEnds_append hafter]
    cases rest with
    | nil => exact .nil
    | cons v rest =>
      rw [Parser.skipLineEnds_of_ne (by rw [hrest v rfl]; nofun)]
      exact hrest
  rw [Statement.ofTokens?, hskip]
  exact bind_eq_ok.2 ⟨_, h.run hfollower,
    bind_eq_ok.2 ⟨_, checkEnd_eq_ok_iff.2 hend, rfl⟩⟩

/-- The statement that a line stands for is valid exactly if it has been read from it. -/
theorem ofTokens_valid_iff {ts : List Token} {s : Statement} :
    Statement.ofTokens ts = s ∧ s.IsValid ↔ Statement.ofTokens? ts = .ok s := by
  rw [Statement.ofTokens]
  constructor
  · rintro ⟨h, hvalid⟩
    split at h
    · next hread => rw [hread, h]
    · exact absurd h.symm (hvalid _)
  · intro h
    obtain ⟨_, _, _, -, -, -, hline⟩ := exists_isLine_of_ofTokens? h
    rw [h]
    exact ⟨rfl, hline.isValid⟩

theorem ofTokens_isValid_iff {ts : List Token} :
    (Statement.ofTokens ts).IsValid ↔ ∃ s, Statement.ofTokens? ts = .ok s := by
  constructor
  · exact fun h => ⟨_, ofTokens_valid_iff.1 ⟨rfl, h⟩⟩
  · rintro ⟨s, h⟩
    obtain ⟨hs, hvalid⟩ := ofTokens_valid_iff.2 h
    rwa [hs]

/-- A line is invalid exactly if it has been complained about. -/
theorem ofTokens_eq_invalid_iff {ts : List Token} {e : Complaint} :
    Statement.ofTokens ts = .invalid e ↔ Statement.ofTokens? ts = .error e := by
  constructor
  · intro h
    cases hread : Statement.ofTokens? ts with
    | error e' =>
      rw [Statement.ofTokens, hread] at h
      cases h
      rfl
    | ok s => exact absurd h (ofTokens_isValid_iff.2 ⟨s, hread⟩ e)
  · intro h
    rw [Statement.ofTokens, h]

/-- **A line is a valid statement exactly if the grammar derives one from it.**  In front of the
derived tokens and behind them there may be ends of lines, and nothing is left over; the position
of the statement is that of its first token. -/
theorem ofTokens_eq_iff (ts : List Token) (s : Statement) :
    Statement.ofTokens ts = s ∧ s.IsValid ↔
      ∃ before t p after, beforeInputEnd ts = before ++ (t :: p) ++ after ∧ LineEnds before ∧
        LineEnds after ∧ IsLine 0 (t :: p) s ∧ t.position = s.position := by
  rw [ofTokens_valid_iff]
  constructor
  · intro h
    obtain ⟨before, p, after, hts, hbefore, hafter, hline⟩ := exists_isLine_of_ofTokens? h
    obtain ⟨t, q, rfl, hposition, -⟩ := hline.exists_cons
    exact ⟨before, t, q, after, hts, hbefore, hafter, hline, hposition⟩
  · rintro ⟨before, t, p, after, hts, hbefore, hafter, hline, -⟩
    exact hline.ofTokens? hts hbefore hafter

end Grammar

end DarjaLang
