import DarjaLang.Proofs.Grammar.Expression
import DarjaLang.Proofs.Token.Braces

/-!
# The grammar of statements

What a statement is, said without a parser: `IsStatement d p s` derives from the rules of the
grammar that the tokens `p` are a statement at depth `d` with the tree `s`.

* Conditions, values and printed expressions stand at the depth of their statement.  A block leads
  one level deeper, from `d` to `d + 1`, and needs `d < maxNesting`.
* A block (`IsBlock`) has its braces around a body (`IsBody`), whose statements end with their
  lines; the last one may share its line with the closing brace.
* `IsAlternatives` derives what may follow the first branch of a conditional: more branches, each
  behind `wila ila`, and at most one last block behind `wila`.
* `IsLine` adds the sentinel, which may stand for a whole line and is no statement of any block.

No rule drops or reorders a token, and every tree carries the position of its first token
(`IsStatement.exists_cons`).
-/

set_option autoImplicit false

namespace DarjaLang

/-- The statement does not stand for a line that could not be read. -/
def Statement.IsValid (s : Statement) : Prop := ∀ complaint, s ≠ .invalid complaint

namespace Grammar

/-- Nothing but ends of lines. -/
def LineEnds (ts : List Token) : Prop := ∀ t ∈ ts, t.kind = .endOfLine

theorem LineEnds.nil : LineEnds [] := List.forall_mem_nil _

mutual

/-- The tokens are a statement at a depth, with a tree. -/
inductive IsStatement : (depth : Nat) → List Token → Statement → Prop
  | assignment {d : Nat} {t u : Token} {p : List Token} {name : String} {e : Expr}
      (ht : t.kind = .identifier name) (hu : u.kind = .assign) (h : IsExpr .disjunction d p e) :
      IsStatement d (t :: u :: p) (.assignment name e t.position)
  | expression {d : Nat} {t : Token} {p : List Token} {e : Expr}
      (h : IsExpr .disjunction d (t :: p) e) :
      IsStatement d (t :: p) (.expression e t.position)
  | print {d : Nat} {t : Token} {p : List Token} {es : List Expr}
      (ht : t.kind = .keyword .kteb) (h : IsList d p es) :
      IsStatement d (t :: p) (.print es t.position)
  | conditional {d : Nat} {t : Token} {p q r : List Token} {e : Expr} {body : List Statement}
      {branches : List (Expr × List Statement)} {otherwise : Option (List Statement)}
      (ht : t.kind = .keyword .ila) (hcondition : IsExpr .disjunction d p e)
      (hbody : IsBlock d q body) (hrest : IsAlternatives d r branches otherwise) :
      IsStatement d (t :: (p ++ (q ++ r)))
        (.conditional ((e, body) :: branches) otherwise t.position)
  | loop {d : Nat} {t : Token} {p q : List Token} {e : Expr} {body : List Statement}
      (ht : t.kind = .keyword .mazal) (hcondition : IsExpr .disjunction d p e)
      (hbody : IsBlock d q body) :
      IsStatement d (t :: (p ++ q)) (.loop e body t.position)

/-- The tokens are the further branches of a conditional and its last block. -/
inductive IsAlternatives : (depth : Nat) → List Token → List (Expr × List Statement) →
    Option (List Statement) → Prop
  | none {d : Nat} : IsAlternatives d [] [] none
  | otherwise {d : Nat} {w : Token} {p : List Token} {body : List Statement}
      (hw : w.kind = .keyword .wila) (hbody : IsBlock d p body) :
      IsAlternatives d (w :: p) [] (some body)
  | branch {d : Nat} {w i : Token} {p q r : List Token} {e : Expr} {body : List Statement}
      {branches : List (Expr × List Statement)} {otherwise : Option (List Statement)}
      (hw : w.kind = .keyword .wila) (hi : i.kind = .keyword .ila)
      (hcondition : IsExpr .disjunction d p e) (hbody : IsBlock d q body)
      (hrest : IsAlternatives d r branches otherwise) :
      IsAlternatives d (w :: i :: (p ++ (q ++ r))) ((e, body) :: branches) otherwise

/-- The tokens are a block in its braces. -/
inductive IsBlock : (depth : Nat) → List Token → List Statement → Prop
  | braces {d : Nat} {o c : Token} {ends p : List Token} {ss : List Statement}
      (ho : o.kind = .leftBrace) (hends : LineEnds ends) (hc : c.kind = .rightBrace)
      (hd : d < maxNesting) (hbody : IsBody (d + 1) p ss) :
      IsBlock d (o :: (ends ++ (p ++ [c]))) ss

/-- The tokens are the statements of a block, from the first one on. -/
inductive IsBody : (depth : Nat) → List Token → List Statement → Prop
  | done {d : Nat} {ends : List Token} (hends : LineEnds ends) : IsBody d ends []
  | last {d : Nat} {p ends : List Token} {s : Statement} (h : IsStatement d p s)
      (hends : LineEnds ends) : IsBody d (p ++ ends) [s]
  | line {d : Nat} {p ends q : List Token} {s : Statement} {ss : List Statement}
      (h : IsStatement d p s) (hends : LineEnds ends) (hne : ends ≠ [])
      (hrest : IsBody d q ss) : IsBody d (p ++ (ends ++ q)) (s :: ss)

end

/-- The tokens are a statement at a depth, or the sentinel. -/
inductive IsLine : (depth : Nat) → List Token → Statement → Prop
  | sentinel {d : Nat} {t : Token} (ht : t.kind = .keyword .khlas) :
      IsLine d [t] (.termination t.position)
  | statement {d : Nat} {p : List Token} {s : Statement} (h : IsStatement d p s) : IsLine d p s

/-! ## The tokens of a statement -/

/-- The kinds of tokens that statements consist of. -/
def inStatement : Token.Kind → Bool
  | .assign | .leftBrace | .rightBrace | .endOfLine
  | .keyword .kteb | .keyword .ila | .keyword .wila | .keyword .mazal => true
  | k => inExpression k

theorem inStatement_of_inExpression {k : Token.Kind} (h : inExpression k = true) :
    inStatement k = true := by
  rw [inStatement.eq_def]
  split
  all_goals first | rfl | exact h

/-- The kinds that a statement may start with. -/
def startsStatement : Token.Kind → Bool
  | .keyword .kteb | .keyword .ila | .keyword .mazal => true
  | k => inExpression k

/-- A statement starts at its position. -/
theorem IsStatement.exists_cons {d : Nat} {p : List Token} {s : Statement}
    (h : IsStatement d p s) :
    ∃ t q, p = t :: q ∧ t.position = s.position ∧ startsStatement t.kind = true := by
  cases h with
  | assignment ht => exact ⟨_, _, rfl, rfl, by rw [ht]; rfl⟩
  | @expression _ t p _ h =>
    have ht := h.inExpression t List.mem_cons_self
    refine ⟨t, p, rfl, rfl, ?_⟩
    rw [startsStatement.eq_def]
    split
    all_goals first | rfl | exact ht
  | print ht => exact ⟨_, _, rfl, rfl, by rw [ht]; rfl⟩
  | conditional ht => exact ⟨_, _, rfl, rfl, by rw [ht]; rfl⟩
  | loop ht => exact ⟨_, _, rfl, rfl, by rw [ht]; rfl⟩

/-- A part of a statement that closes exactly the braces it opens. -/
structure WellBraced (p : List Token) : Prop where
  inStatement : ∀ t ∈ p, inStatement t.kind = true
  balance : Token.balance p = 0

namespace WellBraced

theorem nil : WellBraced [] := ⟨nofun, rfl⟩

theorem append {p q : List Token} (hp : WellBraced p) (hq : WellBraced q) :
    WellBraced (p ++ q) := by
  refine ⟨fun t ht => ?_, by rw [Token.balance_append, hp.balance, hq.balance]; rfl⟩
  rcases List.mem_append.1 ht with ht | ht
  · exact hp.inStatement t ht
  · exact hq.inStatement t ht

theorem cons {t : Token} {p : List Token} (ht : Grammar.inStatement t.kind = true)
    (hweight : t.weight = 0) (hp : WellBraced p) : WellBraced (t :: p) := by
  refine ⟨fun u hu => ?_, by rw [Token.balance_cons, hweight, hp.balance]; rfl⟩
  rcases List.mem_cons.1 hu with rfl | hu
  · exact ht
  · exact hp.inStatement u hu

theorem keyword {t : Token} {p : List Token} {word : Keyword} (ht : t.kind = .keyword word)
    (hword : Grammar.inStatement (.keyword word) = true) (hp : WellBraced p) :
    WellBraced (t :: p) :=
  cons (by rw [ht]; exact hword) (Token.weight_of_keyword ht) hp

/-- Expressions contain no braces. -/
theorem of_inExpression {p : List Token} (h : ∀ t ∈ p, inExpression t.kind = true) :
    WellBraced p := by
  induction p with
  | nil => exact nil
  | cons t p ih =>
    have ht := h t List.mem_cons_self
    refine cons (inStatement_of_inExpression ht) ?_
      (ih fun u hu => h u (List.mem_cons_of_mem t hu))
    refine Token.weight_of_ne (fun hk => ?_) fun hk => ?_
    · rw [hk] at ht; cases ht
    · rw [hk] at ht; cases ht

theorem lineEnds {p : List Token} (h : LineEnds p) : WellBraced p := by
  induction p with
  | nil => exact nil
  | cons t p ih =>
    have ht := h t List.mem_cons_self
    refine cons (by rw [ht]; rfl) ?_ (ih fun u hu => h u (List.mem_cons_of_mem t hu))
    rw [Token.weight, ht]

theorem braces {o c : Token} {p : List Token} (ho : o.kind = .leftBrace)
    (hc : c.kind = .rightBrace) (hp : WellBraced p) : WellBraced (o :: (p ++ [c])) := by
  constructor
  · intro t ht
    simp only [List.mem_cons, List.mem_append, List.not_mem_nil, or_false] at ht
    rcases ht with rfl | ht | rfl
    · rw [ho]; rfl
    · exact hp.inStatement t ht
    · rw [hc]; rfl
  · simp [hp.balance, Token.weight_of_leftBrace ho, Token.weight_of_rightBrace hc]

end WellBraced

theorem IsExpr.wellBraced {l : Level} {d : Nat} {p : List Token} {e : Expr} (h : IsExpr l d p e) :
    WellBraced p :=
  .of_inExpression h.inExpression

mutual

theorem IsStatement.wellBraced {d : Nat} {p : List Token} {s : Statement} :
    IsStatement d p s → WellBraced p
  | .assignment ht hu h =>
    .cons (by rw [ht]; rfl) (by rw [Token.weight, ht])
      (.cons (by rw [hu]; rfl) (by rw [Token.weight, hu]) h.wellBraced)
  | .expression h => .of_inExpression h.inExpression
  | .print ht h =>
    .keyword ht rfl (.of_inExpression h.inExpression)
  | .conditional ht hcondition hbody hrest =>
    .keyword ht rfl
      (.append hcondition.wellBraced
        (.append hbody.wellBraced hrest.wellBraced))
  | .loop ht hcondition hbody =>
    .keyword ht rfl
      (.append hcondition.wellBraced hbody.wellBraced)

theorem IsAlternatives.wellBraced {d : Nat} {p : List Token}
    {branches : List (Expr × List Statement)} {otherwise : Option (List Statement)} :
    IsAlternatives d p branches otherwise → WellBraced p
  | .none => .nil
  | .otherwise hw hbody => .keyword hw rfl hbody.wellBraced
  | .branch hw hi hcondition hbody hrest =>
    .keyword hw rfl
      (.keyword hi rfl
        (.append hcondition.wellBraced
          (.append hbody.wellBraced hrest.wellBraced)))

theorem IsBlock.wellBraced {d : Nat} {p : List Token} {ss : List Statement} :
    IsBlock d p ss → WellBraced p
  | .braces ho hends hc _ hbody => by
    rw [← List.append_assoc]
    exact .braces ho hc (.append (.lineEnds hends) hbody.wellBraced)

theorem IsBody.wellBraced {d : Nat} {p : List Token} {ss : List Statement} :
    IsBody d p ss → WellBraced p
  | .done hends => .lineEnds hends
  | .last h hends => .append h.wellBraced (.lineEnds hends)
  | .line h hends _ hrest => .append h.wellBraced (.append (.lineEnds hends) hrest.wellBraced)

end

/-! ## The tokens of a line -/

theorem IsLine.exists_cons {d : Nat} {p : List Token} {s : Statement} (h : IsLine d p s) :
    ∃ t q, p = t :: q ∧ t.position = s.position ∧ t.kind ≠ .endOfLine := by
  cases h with
  | sentinel ht => exact ⟨_, _, rfl, rfl, by rw [ht]; nofun⟩
  | statement h =>
    obtain ⟨t, q, hp, hposition, ht⟩ := h.exists_cons
    exact ⟨t, q, hp, hposition, by rintro hk; rw [hk] at ht; cases ht⟩

theorem IsLine.balance {d : Nat} {p : List Token} {s : Statement} (h : IsLine d p s) :
    Token.balance p = 0 := by
  cases h with
  | sentinel ht => simp [Token.weight, ht]
  | statement h => exact h.wellBraced.balance

theorem IsLine.ne_endOfInput {d : Nat} {p : List Token} {s : Statement} (h : IsLine d p s) :
    ∀ t ∈ p, t.kind ≠ .endOfInput := by
  cases h with
  | sentinel ht => simp [ht]
  | statement h =>
    intro t hmem hk
    have ht := h.wellBraced.inStatement t hmem
    rw [hk] at ht
    cases ht

theorem IsLine.isValid {d : Nat} {p : List Token} {s : Statement} (h : IsLine d p s) :
    s.IsValid := by
  rintro complaint rfl
  cases h with
  | statement h => cases h

end Grammar

end DarjaLang
