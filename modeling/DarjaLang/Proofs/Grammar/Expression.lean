import DarjaLang.Syntax.Parser

/-!
# The grammar of expressions

What an expression is, said without a parser: `IsExpr l d p e` derives from the rules of the
grammar that the tokens `p` are an expression of level `l` with the tree `e`.

* A **level** says how tightly an expression holds together.  Each of the five binary levels is a
  chain: an operand of the next tighter level, or a shorter chain of the same level, one of the
  level's own operators and an operand.  This makes every binary operator group to the left, and
  `BinaryOperator.level` is the whole table of precedences.
* The **depth** `d` counts the parentheses, argument lists and operators in front of an operand
  that stand around the tokens.  Each of them leads from `d` to `d + 1` and needs
  `d < maxNesting`.
* A tree is as high as its longest path, and a binary node may have a height of at most
  `maxOperatorHeight`.

The lists of expressions that `kteb` and calls contain are derived by `IsList` and `IsArguments`.
-/

set_option autoImplicit false

namespace DarjaLang

namespace Grammar

/-- How tightly an expression holds together, from the loosest to the tightest. -/
inductive Level
  | disjunction
  | conjunction
  | comparison
  | sum
  | product
  | operand
  | primary
  deriving DecidableEq

/-- The level of the operands of a level. -/
def Level.tighter? : Level → Option Level
  | disjunction => some conjunction
  | conjunction => some comparison
  | comparison => some sum
  | sum => some product
  | product => some operand
  | operand => some primary
  | primary => none

/-- The place of a level, counted from the loosest. -/
def Level.rank : Level → Nat
  | disjunction => 0
  | conjunction => 1
  | comparison => 2
  | sum => 3
  | product => 4
  | operand => 5
  | primary => 6

theorem Level.rank_tighter {l m : Level} (h : l.tighter? = some m) : m.rank = l.rank + 1 := by
  cases l <;> cases h <;> rfl

/-- What holds of primaries and operands and passes from the operands of a chain to the chain holds
of every level. -/
theorem Level.of_tighter {P : Level → Prop} (hprimary : P .primary) (hoperand : P .operand)
    (hchain : ∀ {l m : Level}, l.tighter? = some m → l ≠ .operand → P m → P l) (l : Level) :
    P l := by
  have hproduct := hchain (l := .product) rfl nofun hoperand
  have hsum := hchain (l := .sum) rfl nofun hproduct
  have hcomparison := hchain (l := .comparison) rfl nofun hsum
  have hconjunction := hchain (l := .conjunction) rfl nofun hcomparison
  cases l with
  | disjunction => exact hchain rfl nofun hconjunction
  | conjunction => exact hconjunction
  | comparison => exact hcomparison
  | sum => exact hsum
  | product => exact hproduct
  | operand => exact hoperand
  | primary => exact hprimary

end Grammar

/-- The level whose chains an operator builds. -/
def BinaryOperator.level : BinaryOperator → Grammar.Level
  | connective .or => .disjunction
  | connective .and => .conjunction
  | comparison _ => .comparison
  | arithmetic .add | arithmetic .subtract => .sum
  | arithmetic .multiply | arithmetic .divide | arithmetic .remainder => .product

theorem BinaryOperator.rank_level_le (op : BinaryOperator) : op.level.rank ≤ 4 := by
  rcases op with op | op | op <;> cases op <;> decide

/-- How an operator in front of an operand is written. -/
def UnaryOperator.kind : UnaryOperator → Token.Kind
  | negate => .minus
  | not => .bang

theorem UnaryOperator.kind_ne_rightParen (op : UnaryOperator) : op.kind ≠ .rightParen := by
  cases op <;> exact fun hk => by cases hk

/-- How a literal is written. -/
def Literal.kind : Literal → Token.Kind
  | integer digits => .integer digits
  | float value => .float value
  | boolean value => .boolean value
  | string text => .string text
  | walou => .keyword .walou

theorem Literal.kind_ne_rightParen (v : Literal) : v.kind ≠ .rightParen := by
  cases v <;> exact fun hk => by cases hk

namespace Grammar

mutual

/-- The tokens are an expression of a level at a depth, with a tree. -/
inductive IsExpr : Level → (depth : Nat) → List Token → Expr → Prop
  /-- An operand of a chain is a chain, and a primary is an operand. -/
  | single {l m : Level} {d : Nat} {p : List Token} {e : Expr}
      (hl : l.tighter? = some m) (h : IsExpr m d p e) : IsExpr l d p e
  | binary {l m : Level} {d : Nat} {p q : List Token} {t : Token} {op : BinaryOperator}
      {left right : Expr} (hl : l.tighter? = some m) (hop : op.level = l)
      (ht : t.kind = .operator op) (hleft : IsExpr l d p left) (hright : IsExpr m d q right)
      (hheight : (Expr.binary op left right t.position).height ≤ maxOperatorHeight) :
      IsExpr l d (p ++ t :: q) (.binary op left right t.position)
  | unary {d : Nat} {p : List Token} {t : Token} {op : UnaryOperator} {e : Expr}
      (ht : t.kind = op.kind) (hd : d < maxNesting) (h : IsExpr .operand (d + 1) p e) :
      IsExpr .operand d (t :: p) (.unary op e t.position)
  | literal {d : Nat} {t : Token} {v : Literal} (ht : t.kind = v.kind) :
      IsExpr .primary d [t] (.literal v t.position)
  | var {d : Nat} {t : Token} {name : String} (ht : t.kind = .identifier name) :
      IsExpr .primary d [t] (.var name t.position)
  | call {d : Nat} {p : List Token} {t o c : Token} {name : String} {es : List Expr}
      (ht : t.kind = .identifier name) (ho : o.kind = .leftParen) (hc : c.kind = .rightParen)
      (hd : d < maxNesting) (h : IsArguments (d + 1) p es) :
      IsExpr .primary d (t :: o :: (p ++ [c])) (.call name es t.position)
  | group {d : Nat} {p : List Token} {o c : Token} {e : Expr}
      (ho : o.kind = .leftParen) (hc : c.kind = .rightParen)
      (hd : d < maxNesting) (h : IsExpr .disjunction (d + 1) p e) :
      IsExpr .primary d (o :: (p ++ [c])) e

/-- The tokens are one or more expressions with commas between them. -/
inductive IsList : (depth : Nat) → List Token → List Expr → Prop
  | one {d : Nat} {p : List Token} {e : Expr} (h : IsExpr .disjunction d p e) : IsList d p [e]
  | more {d : Nat} {p q : List Token} {t : Token} {e : Expr} {es : List Expr}
      (h : IsExpr .disjunction d p e) (ht : t.kind = .comma) (hs : IsList d q es) :
      IsList d (p ++ t :: q) (e :: es)

/-- The tokens are the arguments of a call: a list, or nothing at all. -/
inductive IsArguments : (depth : Nat) → List Token → List Expr → Prop
  | none {d : Nat} : IsArguments d [] []
  | some {d : Nat} {p : List Token} {es : List Expr} (h : IsList d p es) : IsArguments d p es

end

/-- A primary is an expression of every level. -/
theorem IsExpr.of_primary {d : Nat} {p : List Token} {e : Expr} (h : IsExpr .primary d p e)
    (l : Level) : IsExpr l d p e :=
  Level.of_tighter h (IsExpr.single rfl h) (fun hl _ => IsExpr.single hl) l

/-! ## The tokens of an expression -/

/-- The kinds of tokens that expressions consist of. -/
def inExpression : Token.Kind → Bool
  | .float _ | .integer _ | .string _ | .boolean _ | .keyword .walou | .identifier _
  | .operator _ | .bang | .leftParen | .rightParen | .comma => true
  | _ => false

theorem inExpression_literal (v : Literal) : inExpression v.kind = true := by
  cases v <;> rfl

theorem inExpression_unary (op : UnaryOperator) : inExpression op.kind = true := by
  cases op <;> rfl

mutual

theorem IsExpr.inExpression {l : Level} {d : Nat} {p : List Token} {e : Expr} :
    IsExpr l d p e → ∀ t ∈ p, inExpression t.kind = true
  | .single _ h => h.inExpression
  | .binary _ _ ht hleft hright _ => by
    intro u hu
    rcases List.mem_append.1 hu with hu | hu
    · exact hleft.inExpression u hu
    · rcases List.mem_cons.1 hu with rfl | hu
      · rw [ht]; rfl
      · exact hright.inExpression u hu
  | .unary ht _ h => by
    intro u hu
    rcases List.mem_cons.1 hu with rfl | hu
    · rw [ht]; exact inExpression_unary _
    · exact h.inExpression u hu
  | .literal ht => by
    intro u hu
    rw [List.mem_singleton.1 hu, ht]
    exact inExpression_literal _
  | .var ht => by
    intro u hu
    rw [List.mem_singleton.1 hu, ht]
    rfl
  | .call ht ho hc _ h => by
    intro u hu
    simp only [List.mem_cons, List.mem_append, List.not_mem_nil, or_false] at hu
    rcases hu with rfl | rfl | hu | rfl
    · rw [ht]; rfl
    · rw [ho]; rfl
    · exact h.inExpression u hu
    · rw [hc]; rfl
  | .group ho hc _ h => by
    intro u hu
    simp only [List.mem_cons, List.mem_append, List.not_mem_nil, or_false] at hu
    rcases hu with rfl | hu | rfl
    · rw [ho]; rfl
    · exact h.inExpression u hu
    · rw [hc]; rfl

theorem IsList.inExpression {d : Nat} {p : List Token} {es : List Expr} :
    IsList d p es → ∀ t ∈ p, inExpression t.kind = true
  | .one h => h.inExpression
  | .more h ht hs => by
    intro u hu
    rcases List.mem_append.1 hu with hu | hu
    · exact h.inExpression u hu
    · rcases List.mem_cons.1 hu with rfl | hu
      · rw [ht]; rfl
      · exact hs.inExpression u hu

theorem IsArguments.inExpression {d : Nat} {p : List Token} {es : List Expr} :
    IsArguments d p es → ∀ t ∈ p, inExpression t.kind = true
  | .none => by simp
  | .some h => h.inExpression

end

/-- An expression starts with a token that is no closing parenthesis. -/
theorem IsExpr.exists_cons {l : Level} {d : Nat} {p : List Token} {e : Expr} :
    IsExpr l d p e → ∃ t q, p = t :: q ∧ t.kind ≠ .rightParen
  | .single _ h => h.exists_cons
  | .binary _ _ _ hleft _ _ => by
    obtain ⟨t, q, rfl, ht⟩ := hleft.exists_cons
    exact ⟨t, _, rfl, ht⟩
  | .unary ht _ _ => ⟨_, _, rfl, by rw [ht]; exact UnaryOperator.kind_ne_rightParen _⟩
  | .literal ht => ⟨_, _, rfl, by rw [ht]; exact Literal.kind_ne_rightParen _⟩
  | .var ht => ⟨_, _, rfl, by rw [ht]; nofun⟩
  | .call ht _ _ _ _ => ⟨_, _, rfl, by rw [ht]; nofun⟩
  | .group ho _ _ _ => ⟨_, _, rfl, by rw [ho]; nofun⟩

theorem IsList.exists_cons {d : Nat} {p : List Token} {es : List Expr} :
    IsList d p es → ∃ t q, p = t :: q ∧ t.kind ≠ .rightParen
  | .one h => h.exists_cons
  | .more h _ _ => by
    obtain ⟨t, q, rfl, ht⟩ := h.exists_cons
    exact ⟨t, _, rfl, ht⟩

end Grammar

end DarjaLang
