import DarjaLang.Proofs.Grammar.Expression.Soundness
import DarjaLang.Proofs.Reading.Local
import DarjaLang.Proofs.Reading.Unfolding

/-!
# Expressions are read locally

An expression ends at the latest in front of a token that no expression contains, and up to there
the parser does not look at what comes behind.

* `ExprComplaint t e` says that the complaint `e` about an expression is about the token `t`.  None
  of these complaints is about a block, so no further tokens can settle one.
* `local_chain` and `local_separated` carry the property through the combinators.
* `local_level` is the result, for every level of the grammar.
-/

set_option autoImplicit false

namespace DarjaLang

open Grammar

namespace Parser

/-- What a complaint may say that was expected. -/
def expectations : List String :=
  ["an expression", "')'", "',' or ')'", "a statement", "'\x7b'", "end of line or '\x7d'",
    "end of line"]

/-- What is complained about a token in an expression. -/
inductive ExprComplaint (t : Token) : Complaint → Prop
  | unexpected {expected : String} (h : expected ∈ expectations) :
      ExprComplaint t (ParseError.unexpected (some t) expected)
  | sentinel (ht : t.kind = .keyword .khlas) : ExprComplaint t ⟨.misplacedSentinel, t.position⟩
  | nesting (ht : inExpression t.kind = true) : ExprComplaint t ⟨.nestingTooDeep, t.position⟩
  | unmatched (ht : t.kind = .leftParen) : ExprComplaint t (unmatched t.position)

theorem cause_unexpected_ne (t : Token) (expected : String) :
    (ParseError.unexpected (some t) expected).cause ≠ .unterminatedBlock := by
  dsimp only [ParseError.unexpected]
  split
  · split <;> nofun
  all_goals nofun

theorem ExprComplaint.cause_ne {t : Token} {e : Complaint} (h : ExprComplaint t e) :
    e.cause ≠ .unterminatedBlock := by
  cases h with
  | unexpected => exact cause_unexpected_ne t _
  | sentinel => nofun
  | nesting => nofun
  | unmatched => nofun

variable {α : Type} {C : Token → Complaint → Prop} {stop : Token} {seen : Token → Prop}

/-- A token of an expression is not `stop`. -/
theorem suffix_of_inExpression (hstop : inExpression stop.kind = false) {t : Token}
    {ts : List Token} (ht : inExpression t.kind = true) (hts : [stop] <:+ t :: ts) :
    [stop] <:+ ts :=
  suffix_of_suffix_cons hts fun h => by rw [h, hstop] at ht; cases ht

/-! ## Lists and chains -/

/-- A list goes on behind a comma, and `stop` is none. -/
theorem local_separated {item : Parser α} (hitem : Local C stop item.run)
    (hstop : stop.kind ≠ .comma) : Local C stop (separated item).run := by
  intro ts hts seen
  change LocalAt C stop seen (separatedFrom item) ts
  induction hlength : ts.length using Nat.strongRecOn generalizing ts seen with
  | ind length ih =>
    rw [show separatedFrom item = _ from funext (separatedFrom_eq item)]
    refine (hitem hts).bind fun a rest hrun hrest => ?_
    obtain ⟨t, behind, rfl⟩ := exists_cons_of_suffix hrest
    by_cases ht : t.kind = .comma
    · have hbehind := suffix_of_suffix_cons hrest (by rw [ht]; exact hstop.symm)
      have hlt : behind.length < length := by
        have := item.consumes hrun
        simp only [List.length_cons] at this
        omega
      refine .cons (g := fun us => separatedFrom item us >>= fun r => .ok (a :: r.1, r.2))
        (fun us => by dsimp only; rw [ht]; rfl) ?_
      exact (ih _ hlt hbehind rfl).bind fun as _ _ hlast => .pure hlast (a :: as)
    · refine .head (g := fun us => .ok ([a], us)) (fun us => ?_) (.pure hrest [a])
      dsimp only
      split
      · contradiction
      · rfl

variable {accepts : BinaryOperator → Bool} {operand : Parser Expr}

/-- A chain goes on behind one of its operators, and `stop` is none. -/
theorem localAt_chainFrom (hoperand : Local ExprComplaint stop operand.run)
    (hstop : inExpression stop.kind = false) (left : Expr) (height : Nat) {ts : List Token}
    (hts : [stop] <:+ ts) :
    LocalAt ExprComplaint stop seen (chainFrom accepts operand left height) ts := by
  induction hlength : ts.length using Nat.strongRecOn generalizing left height ts seen with
  | ind length ih =>
    obtain ⟨t, behind, rfl⟩ := exists_cons_of_suffix hts
    cases hop : t.kind.operator?.filter accepts with
    | none =>
      refine .head (fun us => ?_) (.pure hts left)
      rw [chainFrom_cons, hop]
    | some op =>
      have ht : inExpression t.kind = true := by
        cases hk : t.kind <;> rw [hk] at hop <;> first | rfl | cases hop
      have hbehind := suffix_of_inExpression hstop ht hts
      refine .cons (g := fun us => operand.run us >>= fun r =>
          if maxOperatorHeight < max height r.1.height + 1 then
            .error ⟨.nestingTooDeep, t.position⟩
          else
            chainFrom accepts operand (.binary op left r.1 t.position)
              (max height r.1.height + 1) r.2)
        (fun us => by rw [chainFrom_cons, hop]) ?_
      refine (hoperand hbehind).bind fun right rest hrun hrest => ?_
      have hlt : rest.length < length := by
        have := operand.consumes hrun
        simp only [List.length_cons] at hlength
        omega
      by_cases hheight : maxOperatorHeight < max height right.height + 1
      · simp only [if_pos hheight]
        exact .fail (.inr rfl) (.nesting ht)
      · simp only [if_neg hheight]
        exact ih _ hlt _ _ hrest rfl

theorem local_chain (hoperand : Local ExprComplaint stop operand.run)
    (hstop : inExpression stop.kind = false) :
    Local ExprComplaint stop (chain accepts operand).run := by
  intro ts hts _
  refine (hoperand hts).bind fun left rest _ hrest => ?_
  exact localAt_chainFrom hoperand hstop left left.height hrest

/-! ## Operands

In these lemmas `levels` levels of nesting are left. -/

section Nesting

variable {levels : Nat} {o t : Token}

/-- A closing parenthesis, or a complaint about what stands in its place. -/
theorem localAt_close (ho : o.kind = .leftParen) (hseen : seen o)
    (hstop : inExpression stop.kind = false) {expected : String}
    (hexpected : expected ∈ expectations) {runOut : Complaint} {ts : List Token}
    (hts : [stop] <:+ ts) (a : α) :
    LocalAt ExprComplaint stop seen
      (fun us => close o.position expected runOut us >>= fun rest => .ok (a, rest)) ts := by
  obtain ⟨t, behind, rfl⟩ := exists_cons_of_suffix hts
  by_cases ht : t.kind = .rightParen
  · have hbehind := suffix_of_inExpression hstop (by rw [ht]; rfl) hts
    exact .cons (fun us => by dsimp only [close]; rw [ht]; rfl) (.pure hbehind a)
  by_cases hends : t.kind.isTerminator = true
  · refine .head (g := fun _ => .error (unmatched o.position)) (fun us => ?_)
      (.fail (.inl hseen) (.unmatched ho))
    dsimp only [close]
    cases hk : t.kind <;> rw [hk] at hends <;> first | rfl | cases hends
  · refine .head (g := fun _ => .error (ParseError.unexpected (some t) expected)) (fun us => ?_)
      (.fail (.inr rfl) (.unexpected hexpected))
    dsimp only [close]
    split
    · contradiction
    · next hk => exact absurd (by rw [hk]; rfl) hends
    · next hk => exact absurd (by rw [hk]; rfl) hends
    · rfl

/-- What stands one level further in is read locally. -/
def LocalInside (stop : Token) (levels : Nat) : Prop :=
  ∀ k, levels = k + 1 → ∀ l : Level, Local ExprComplaint stop (l.parser k).run

theorem LocalInside.of_deeper (hin : LocalInside stop levels) {opening : Position}
    {p : Parser Expr} (hp : deeper (innerOperand levels) opening = .ok p) :
    Local ExprComplaint stop p.run ∧ Local ExprComplaint stop (disjunction p).run := by
  cases levels with
  | zero => cases hp
  | succ k =>
    cases hp
    exact ⟨hin k rfl .operand, hin k rfl .disjunction⟩

theorem deeper_eq_error {inner : Option (Parser α)} {opening : Position} {e : Complaint}
    (h : deeper inner opening = .error e) : e = ⟨.nestingTooDeep, opening⟩ := by
  cases inner with
  | none => cases h; rfl
  | some p => cases h

theorem localAt_group (hin : LocalInside stop levels) (hstop : inExpression stop.kind = false)
    (ho : o.kind = .leftParen) (hseen : seen o) {ts : List Token} (hts : [stop] <:+ ts) :
    LocalAt ExprComplaint stop seen (group (innerOperand levels) o.position) ts := by
  refine .lift hseen (fun e he => ?_) fun p hp => ?_
  · rw [deeper_eq_error he]
    exact .nesting (by rw [ho]; rfl)
  · exact ((hin.of_deeper hp).2 hts).bind fun e rest _ hrest =>
      localAt_close ho hseen hstop (by decide) hrest e

theorem localAt_arguments (hin : LocalInside stop levels) (hstop : inExpression stop.kind = false)
    (ho : o.kind = .leftParen) (hseen : seen o) {ts : List Token} (hts : [stop] <:+ ts) :
    LocalAt ExprComplaint stop seen (arguments (innerOperand levels) o.position) ts := by
  refine .lift hseen (fun e he => ?_) fun p hp => ?_
  · rw [deeper_eq_error he]
    exact .nesting (by rw [ho]; rfl)
  obtain ⟨t, behind, rfl⟩ := exists_cons_of_suffix hts
  by_cases ht : t.kind = .rightParen
  · have hbehind := suffix_of_inExpression hstop (by rw [ht]; rfl) hts
    have hstart : ∀ us, startsWithClose (t :: us) = true := fun us => by
      rw [startsWithClose, ht]
    exact .cons (fun us => if_pos (hstart us)) (.pure hbehind [])
  · have hstart : ∀ us, startsWithClose (t :: us) = false := fun us => by
      dsimp only [startsWithClose]
      split
      · contradiction
      · rfl
    have hlist : Local ExprComplaint stop (separated (disjunction p)).run :=
      local_separated (hin.of_deeper hp).2 fun h => by rw [h] at hstop; cases hstop
    refine .head (g := fun us => (separated (disjunction p)).run us >>= fun r =>
        close o.position "',' or ')'" (ParseError.unexpected none "',' or ')'") r.2 >>=
          fun rest => .ok (r.1, rest))
      (fun us => if_neg (ne_true_of_eq_false (hstart us))) ?_
    exact (hlist hts).bind fun es rest _ hrest =>
      localAt_close ho (.inl hseen) hstop (by decide) hrest es

theorem local_named (hin : LocalInside stop levels) (hstop : inExpression stop.kind = false)
    (name : String) (position : Position) :
    Local ExprComplaint stop (named (innerOperand levels) name position) := by
  intro ts hts _
  obtain ⟨o, behind, rfl⟩ := exists_cons_of_suffix hts
  by_cases ho : o.kind = .leftParen
  · have hbehind := suffix_of_inExpression hstop (by rw [ho]; rfl) hts
    refine .cons (g := fun us => arguments (innerOperand levels) o.position us >>= fun r =>
        .ok (.call name r.1 position, r.2))
      (fun us => by dsimp only [named]; rw [ho]; rfl) ?_
    exact (localAt_arguments hin hstop ho (.inr rfl) hbehind).bind
      fun es rest _ hrest => .pure hrest (Expr.call name es position)
  · refine .head (g := fun us => .ok (.var name position, us)) (fun us => ?_) (.pure hts _)
    dsimp only [named]
    split
    · contradiction
    · rfl

/-- What a primary may start with, and what is read behind that. -/
theorem primaryAt_cases (inner : Option (Parser Expr)) (t : Token) :
    (∃ v : Literal, t.kind = v.kind ∧
      ∀ us, primaryAt inner t us = .ok (.literal v t.position, us)) ∨
    (∃ name, t.kind = .identifier name ∧
      ∀ us, primaryAt inner t us = named inner name t.position us) ∨
    (t.kind = .leftParen ∧ ∀ us, primaryAt inner t us = group inner t.position us) ∨
    ∃ e, ExprComplaint t e ∧ ∀ us, primaryAt inner t us = .error e := by
  have hother : (∀ us, primaryAt inner t us =
      .error (ParseError.unexpected (some t) "an expression")) →
      ∃ e, ExprComplaint t e ∧ ∀ us, primaryAt inner t us = .error e :=
    fun h => ⟨_, .unexpected (by decide), h⟩
  dsimp only [primaryAt] at hother ⊢
  cases hk : t.kind with
  | integer digits => exact .inl ⟨.integer digits, rfl, fun _ => rfl⟩
  | float value => exact .inl ⟨.float value, rfl, fun _ => rfl⟩
  | string text => exact .inl ⟨.string text, rfl, fun _ => rfl⟩
  | boolean value => exact .inl ⟨.boolean value, rfl, fun _ => rfl⟩
  | identifier name => exact .inr (.inl ⟨name, rfl, fun _ => rfl⟩)
  | leftParen => exact .inr (.inr (.inl ⟨rfl, fun _ => rfl⟩))
  | keyword word =>
    cases word with
    | walou => exact .inl ⟨.walou, rfl, fun _ => rfl⟩
    | khlas => exact .inr (.inr (.inr ⟨_, .sentinel hk, fun _ => rfl⟩))
    | _ => rw [hk] at hother; exact .inr (.inr (.inr (hother fun _ => rfl)))
  | _ => rw [hk] at hother; exact .inr (.inr (.inr (hother fun _ => rfl)))

theorem local_primary (hin : LocalInside stop levels) (hstop : inExpression stop.kind = false) :
    Local ExprComplaint stop (primary (innerOperand levels)).run := by
  intro ts hts _
  obtain ⟨t, behind, rfl⟩ := exists_cons_of_suffix hts
  rcases primaryAt_cases (innerOperand levels) t with
    ⟨v, ht, h⟩ | ⟨name, ht, h⟩ | ⟨ht, h⟩ | ⟨e, he, h⟩
  · have hbehind := suffix_of_inExpression hstop (by rw [ht]; exact inExpression_literal v) hts
    exact .cons h (.pure hbehind _)
  · have hbehind := suffix_of_inExpression hstop (by rw [ht]; rfl) hts
    exact .cons h (local_named hin hstop name t.position hbehind)
  · have hbehind := suffix_of_inExpression hstop (by rw [ht]; rfl) hts
    exact .cons h (localAt_group hin hstop ht (.inr rfl) hbehind)
  · exact .head (g := fun _ => .error e) h (.fail (.inr rfl) he)

theorem local_operandAround (hin : LocalInside stop levels)
    (hstop : inExpression stop.kind = false) :
    Local ExprComplaint stop (operandAround (innerOperand levels)).run := by
  intro ts hts _
  obtain ⟨t, behind, rfl⟩ := exists_cons_of_suffix hts
  cases hop : unary? t with
  | none =>
    refine .head (g := (primary (innerOperand levels)).run) (fun us => ?_)
      (local_primary hin hstop hts)
    dsimp only [operandAround]
    rw [hop]
  | some op =>
    have ht : inExpression t.kind = true := by
      rw [kind_of_unary? hop]
      exact inExpression_unary op
    refine .cons (g := signed (innerOperand levels) op t.position) (fun us => ?_) ?_
    · dsimp only [operandAround]
      rw [hop]
    · refine .lift (.inr rfl) (fun e he => ?_) fun p hp => ?_
      · rw [deeper_eq_error he]
        exact .nesting ht
      · exact ((hin.of_deeper hp).1 (suffix_of_inExpression hstop ht hts)).bind
          fun e rest _ hrest => .pure hrest (Expr.unary op e t.position)

/-- A chain is read locally if the chains of the next tighter level are. -/
theorem local_chain_level {l m : Level} (hl : l.tighter? = some m) (hne : l ≠ .operand)
    (hstop : inExpression stop.kind = false)
    (h : Local ExprComplaint stop (m.parser levels).run) :
    Local ExprComplaint stop (l.parser levels).run := by
  rw [Level.parser_eq_chain hl hne]
  exact local_chain h hstop

theorem local_level_of_inside (hin : LocalInside stop levels)
    (hstop : inExpression stop.kind = false) (l : Level) :
    Local ExprComplaint stop (l.parser levels).run := by
  refine Level.of_tighter (P := fun l => Local ExprComplaint stop (l.parser levels).run)
    (local_primary hin hstop) ?_ (fun hl hne => local_chain_level hl hne hstop) l
  rw [Level.parser, operand_eq]
  exact local_operandAround hin hstop

end Nesting

/-- **Expressions are read locally**, up to a token that none of them contains. -/
theorem local_level (hstop : inExpression stop.kind = false) (levels : Nat) (l : Level) :
    Local ExprComplaint stop (l.parser levels).run := by
  induction levels generalizing l with
  | zero => exact local_level_of_inside (fun k hk => absurd hk (Nat.zero_ne_add_one k)) hstop l
  | succ levels ih =>
    refine local_level_of_inside (fun k hk => ?_) hstop l
    cases hk
    exact ih

end Parser

end DarjaLang
