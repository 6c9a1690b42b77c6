import DarjaLang.Proofs.Grammar.Expression

/-!
# How deep the tokens of an expression are nested

What stands around a token can be told from the tokens in front of it, without a tree.  A block is
open from one brace to the other, and a pair of parentheses, whether it groups or holds arguments,
from one parenthesis to the other.  An operator in front of an operand is open until the operand has
ended: behind a literal, a name or a closing parenthesis, unless the name is that of a function and
its arguments follow.

* `Nesting` is what is open after some tokens, and `Nesting.after` reads it off the tokens.
* `IsExpr.leads`: where an expression is derived at depth `d`, and `d` things are open in front of
  it, there are never more things open inside it than there may be levels of nesting.
-/

set_option autoImplicit false

namespace DarjaLang

/-- What can be open around a token. -/
inductive Opening
  | block
  | parentheses
  /-- An operator in front of an operand. -/
  | sign
  deriving DecidableEq

/-- What is open after some tokens, the innermost first, and whether they end with an operand. -/
structure Nesting where
  opened : List Opening
  ended : Bool

namespace Nesting

/-- Nothing is open in front of the first token. -/
def start : Nesting := ⟨[], false⟩

/-- What is still open when the next token does not belong to the operand in front of it: this
operand has ended, and with it the operators in front of it. -/
def settled (n : Nesting) : List Opening :=
  if n.ended then n.opened.dropWhile (· = .sign) else n.opened

/-- What is open behind the next token. -/
def next (n : Nesting) (t : Token) : Nesting :=
  match t.kind with
  | .leftBrace => ⟨.block :: n.settled, false⟩
  | .rightBrace => ⟨n.settled.tail, false⟩
  | .leftParen => ⟨.parentheses :: n.opened, false⟩
  | .rightParen => ⟨n.settled.tail, true⟩
  | .bang => ⟨.sign :: n.settled, false⟩
  | .minus => if n.ended then ⟨n.settled, false⟩ else ⟨.sign :: n.settled, false⟩
  | .float _ | .integer _ | .string _ | .boolean _ | .keyword .walou | .identifier _ =>
    ⟨n.settled, true⟩
  | _ => ⟨n.settled, false⟩

/-- What is open after some tokens. -/
def after (ts : List Token) : Nesting := ts.foldl next start

variable {os : List Opening} {t : Token} {n n' n₁ : Nesting} {p q front : List Token}

/-! ## Steps -/

theorem next_leftParen (ht : t.kind = .leftParen) :
    next n t = ⟨.parentheses :: n.opened, false⟩ := by
  rw [next, ht]

theorem next_rightParen (ht : t.kind = .rightParen) : next n t = ⟨n.settled.tail, true⟩ := by
  rw [next, ht]

/-- The kinds of tokens of a statement that stand outside of operands and open and close nothing. -/
def separates : Token.Kind → Bool
  | .comma | .assign | .endOfLine | .keyword .kteb | .keyword .ila | .keyword .wila
  | .keyword .mazal => true
  | _ => false

theorem next_of_separates {k : Token.Kind} (ht : t.kind = k) (hk : separates k = true) :
    next n t = ⟨n.settled, false⟩ := by
  rw [next, ht]
  rw [separates.eq_def] at hk
  split at hk
  all_goals first | rfl | cases hk

theorem next_identifier {name : String} (ht : t.kind = .identifier name) :
    next n t = ⟨n.settled, true⟩ := by
  rw [next, ht]

theorem next_literal {v : Literal} (ht : t.kind = v.kind) : next n t = ⟨n.settled, true⟩ := by
  rw [next, ht]
  cases v <;> rfl

/-- An operator in front of an operand stays open. -/
theorem next_unary {op : UnaryOperator} (ht : t.kind = op.kind) :
    next ⟨os, false⟩ t = ⟨.sign :: os, false⟩ := by
  rw [next, ht]
  cases op <;> rfl

/-- An operator between operands opens nothing. -/
theorem next_operator {op : BinaryOperator} (ht : t.kind = .operator op) (hended : n.ended) :
    next n t = ⟨n.settled, false⟩ := by
  rw [next, ht]
  rcases op with op | op | op <;> cases op <;> first | rfl | exact if_pos hended

/-- The innermost thing that is open is no operator in front of an operand. -/
def Clear (os : List Opening) : Prop := os.head? ≠ some .sign

theorem clear_nil : Clear [] := nofun

theorem clear_block (os : List Opening) : Clear (.block :: os) := fun h => by cases h

theorem clear_parentheses (os : List Opening) : Clear (.parentheses :: os) := fun h => by cases h

/-- An operand that has ended takes along all the operators in front of it. -/
theorem settled_replicate (h : Clear os) (k : Nat) :
    settled ⟨List.replicate k .sign ++ os, true⟩ = os := by
  rw [settled, if_pos rfl, List.dropWhile_append_of_pos]
  · cases os with
    | nil => rfl
    | cons o os =>
      cases o with
      | block => rfl
      | parentheses => rfl
      | sign => exact absurd rfl h
  · intro o ho
    exact decide_eq_true (List.eq_of_mem_replicate ho)

/-! ## Runs -/

/-- The tokens lead from one state to another, and on the way there is never more open than there
may be levels of nesting. -/
inductive Leads : Nesting → List Token → Nesting → Prop
  | nil {n : Nesting} (h : n.opened.length ≤ maxNesting) : Leads n [] n
  | cons {n n' : Nesting} {t : Token} {p : List Token} (h : n.opened.length ≤ maxNesting)
      (hp : Leads (next n t) p n') : Leads n (t :: p) n'

theorem Leads.append (hp : Leads n p n₁) (hq : Leads n₁ q n') : Leads n (p ++ q) n' := by
  induction hp with
  | nil => exact hq
  | cons h _ ih => exact .cons h (ih hq)

theorem Leads.length_le (hp : Leads n p n') : n'.opened.length ≤ maxNesting := by
  induction hp with
  | nil h => exact h
  | cons _ _ ih => exact ih

theorem Leads.foldl_eq (hp : Leads n p n') : p.foldl next n = n' := by
  induction hp with
  | nil => rfl
  | cons _ _ ih => exact ih

theorem Leads.length_foldl_le (hp : Leads n p n') (hfront : front <+: p) :
    (front.foldl next n).opened.length ≤ maxNesting := by
  induction hp generalizing front with
  | nil h => rwa [List.prefix_nil.1 hfront]
  | cons h _ ih =>
    cases front with
    | nil => exact h
    | cons u front =>
      obtain ⟨rfl, hp⟩ := List.cons_prefix_cons.1 hfront
      exact ih hp

/-- A token in between. -/
theorem Leads.append_cons (hp : Leads n p n₁) (hq : Leads (next n₁ t) q n') :
    Leads n (p ++ t :: q) n' :=
  hp.append (.cons hp.length_le hq)

end Nesting

namespace Grammar

open Nesting

mutual

/-- **In an expression there is never more open than there may be levels of nesting.**  If `d`
things are open in front of an expression at depth `d`, the same things are open behind it, besides
the operators in front of its last operand. -/
theorem IsExpr.leads {l : Level} {d : Nat} {p : List Token} {e : Expr} {os : List Opening} :
    IsExpr l d p e → d ≤ maxNesting → os.length = d → (l.rank ≤ 4 → Clear os) →
      ∃ k, Leads ⟨os, false⟩ p ⟨List.replicate k .sign ++ os, true⟩
  | .single hl h, hd, hos, hclear =>
    h.leads hd hos fun hrank => hclear (by rw [Level.rank_tighter hl] at hrank; omega)
  | .binary hl hop ht hleft hright _, hd, hos, hclear => by
    -- Only an operand may have an operator directly in front of it, and chains are no operands.
    have hos' : Clear os := hclear (hop ▸ BinaryOperator.rank_level_le _)
    obtain ⟨j, hj⟩ := hleft.leads hd hos hclear
    obtain ⟨k, hk⟩ := hright.leads hd hos fun _ => hos'
    refine ⟨k, hj.append_cons ?_⟩
    rw [next_operator ht rfl, settled_replicate hos']
    exact hk
  | .unary ht hd h, hle, hos, _ => by
    have hos' : (Opening.sign :: os).length = _ := congrArg (· + 1) hos
    obtain ⟨k, hk⟩ := h.leads hd hos' nofun
    refine ⟨k + 1, .cons (hos ▸ hle) ?_⟩
    rw [next_unary ht, List.replicate_succ', List.append_assoc]
    exact hk
  | .literal ht, hd, hos, _ => by
    refine ⟨0, .cons (hos ▸ hd) ?_⟩
    rw [next_literal ht]
    exact .nil (hos ▸ hd)
  | .var ht, hd, hos, _ => by
    refine ⟨0, .cons (hos ▸ hd) ?_⟩
    rw [next_identifier ht]
    exact .nil (hos ▸ hd)
  | .call ht ho hc hd h, hle, hos, _ => by
    have hos' : (Opening.parentheses :: os).length = _ := congrArg (· + 1) hos
    obtain ⟨n, hn, hsettled⟩ := h.leads hd hos' (clear_parentheses os)
    refine ⟨0, .cons (hos ▸ hle) ?_⟩
    rw [next_identifier ht]
    refine .cons (hos ▸ hle) ?_
    rw [next_leftParen ho]
    refine hn.append_cons ?_
    rw [next_rightParen hc, hsettled]
    exact .nil (hos ▸ hle)
  | .group ho hc hd h, hle, hos, _ => by
    have hos' : (Opening.parentheses :: os).length = _ := congrArg (· + 1) hos
    obtain ⟨k, hk⟩ := h.leads hd hos' fun _ => clear_parentheses os
    refine ⟨0, .cons (hos ▸ hle) ?_⟩
    rw [next_leftParen ho]
    refine hk.append_cons ?_
    rw [next_rightParen hc, settled_replicate (clear_parentheses os)]
    exact .nil (hos ▸ hle)

theorem IsList.leads {d : Nat} {p : List Token} {es : List Expr} {os : List Opening} :
    IsList d p es → d ≤ maxNesting → os.length = d → Clear os →
      ∃ k, Leads ⟨os, false⟩ p ⟨List.replicate k .sign ++ os, true⟩
  | .one h, hd, hos, hclear => h.leads hd hos fun _ => hclear
  | .more h ht hs, hd, hos, hclear => by
    obtain ⟨j, hj⟩ := h.leads hd hos fun _ => hclear
    obtain ⟨k, hk⟩ := hs.leads hd hos hclear
    refine ⟨k, hj.append_cons ?_⟩
    rw [next_of_separates ht rfl, settled_replicate hclear]
    exact hk

theorem IsArguments.leads {d : Nat} {p : List Token} {es : List Expr} {os : List Opening} :
    IsArguments d p es → d ≤ maxNesting → os.length = d → Clear os →
      ∃ n, Leads ⟨os, false⟩ p n ∧ n.settled = os
  | .none, hd, hos, _ => ⟨_, .nil (hos ▸ hd), rfl⟩
  | .some h, hd, hos, hclear => by
    obtain ⟨k, hk⟩ := h.leads hd hos hclear
    exact ⟨_, hk, settled_replicate hclear k⟩

end

end Grammar

end DarjaLang
