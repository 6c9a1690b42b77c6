import DarjaLang.Proofs.Grammar.Expression
import DarjaLang.Syntax.Expression

/-!
# What is read as an expression is one

Whatever the parser for expressions reads has a derivation in the grammar.

* `Parser.Reads` says of a parser that it only reads what a relation allows.  It passes through the
  combinators: `reads_chain`, `reads_separated`.
* `Level.parser` is the parser of one level of the grammar.  Above the operands each is a chain of
  the next tighter one, whose operators are those of the level (`Level.parser_eq_chain`); so the
  five binary levels are one argument.
* `reads_isExpr` is the result, by recursion on the levels of nesting that are left: these and the
  depth of the grammar add up to `maxNesting`.
-/

set_option autoImplicit false

namespace DarjaLang

open Grammar

namespace Parser

variable {α : Type}

/-! ## What is read has a derivation -/

/-- Whenever the parser reads something, the relation allows the tokens that were consumed. -/
def Reads (p : Parser α) (R : List Token → α → Prop) : Prop :=
  ∀ ⦃ts : List Token⦄ ⦃a : α⦄ ⦃rest : List Token⦄, p.run ts = .ok (a, rest) →
    ∃ used, ts = used ++ rest ∧ R used a

theorem Reads.mono {p : Parser α} {R S : List Token → α → Prop} (h : Reads p R)
    (hRS : ∀ used a, R used a → S used a) : Reads p S := by
  intro ts a rest hrun
  obtain ⟨used, hts, hR⟩ := h hrun
  exact ⟨used, hts, hRS used a hR⟩

section Chain

variable {accepts : BinaryOperator → Bool} {operand : Parser Expr}
  {O C : List Token → Expr → Prop}

/-- The rest of a chain extends the part that was read before it.  What is counted along the chain
is the height of that part: this is true of the first operand, and each operator keeps it true. -/
theorem reads_chainFrom (hO : Reads operand O)
    (hstep : ∀ p left t op q right, C p left → t.kind = .operator op → accepts op = true →
      O q right → (Expr.binary op left right t.position).height ≤ maxOperatorHeight →
      C (p ++ t :: q) (.binary op left right t.position))
    {p ts rest : List Token} {left e : Expr} {height : Nat} (hleft : C p left)
    (hcount : height = left.height)
    (h : chainFrom accepts operand left height ts = .ok (e, rest)) :
    ∃ used, ts = used ++ rest ∧ C (p ++ used) e := by
  fun_induction chainFrom accepts operand left height ts generalizing p e rest with
  | case1 => cases h; exact ⟨[], rfl, by rwa [List.append_nil]⟩
  | case2 => cases h; exact ⟨[], rfl, by rwa [List.append_nil]⟩
  | case3 => cases h
  | case4 => cases h
  | case5 left height t behind op hop right rest' hrun next hnext =>
    rename_i ih
    have hnode : next = (Expr.binary op left right t.position).height := by
      rw [Expr.height_binary, ← hcount]
    obtain ⟨q, rfl, hright⟩ := hO hrun
    obtain ⟨hkind, haccepts⟩ := Option.filter_eq_some_iff.1 hop
    have ht : t.kind = .operator op := by
      cases hk : t.kind <;> rw [hk] at hkind <;> cases hkind
      rfl
    have hheight := hnode ▸ Nat.le_of_not_lt hnext
    obtain ⟨used, rfl, hC⟩ :=
      ih (hstep p left t op q right hleft ht haccepts hright hheight) hnode h
    exact ⟨t :: q ++ used, by simp, by simpa using hC⟩

theorem reads_chain (hO : Reads operand O) (hsingle : ∀ p e, O p e → C p e)
    (hstep : ∀ p left t op q right, C p left → t.kind = .operator op → accepts op = true →
      O q right → (Expr.binary op left right t.position).height ≤ maxOperatorHeight →
      C (p ++ t :: q) (.binary op left right t.position)) :
    Reads (chain accepts operand) C := by
  intro ts e rest h
  obtain ⟨⟨left, behind⟩, hrun, hchain⟩ := bind_eq_ok.1 h
  obtain ⟨p, rfl, hleft⟩ := hO hrun
  obtain ⟨used, rfl, hC⟩ := reads_chainFrom hO hstep (hsingle p left hleft) rfl hchain
  exact ⟨p ++ used, by simp, hC⟩

end Chain

theorem reads_separated {item : Parser α} {I : List Token → α → Prop}
    {L : List Token → List α → Prop} (hI : Reads item I) (hone : ∀ p a, I p a → L p [a])
    (hmore : ∀ p a t q as, I p a → t.kind = .comma → L q as → L (p ++ t :: q) (a :: as)) :
    Reads (separated item) L := by
  intro ts as rest h
  change separatedFrom item ts = .ok (as, rest) at h
  fun_induction separatedFrom item ts generalizing as rest with
  | case1 => cases h
  | case2 ts a hrun =>
    cases h
    obtain ⟨p, hts, hp⟩ := hI hrun
    exact ⟨p, hts, hone p a hp⟩
  | case3 ts a t behind hrun ht ih =>
    obtain ⟨p, rfl, hp⟩ := hI hrun
    cases hrest : separatedFrom item behind with
    | error e => rw [hrest] at h; cases h
    | ok r =>
      rw [hrest] at h
      cases h
      obtain ⟨q, hbehind, hq⟩ := ih hrest
      exact ⟨p ++ t :: q, by simp [hbehind], hmore p a t q _ hp ht hq⟩
  | case4 ts a t behind hrun =>
    cases h
    obtain ⟨p, hts, hp⟩ := hI hrun
    exact ⟨p, hts, hone p a hp⟩

end Parser

namespace Grammar

/-- The parser of a level in which so many levels of nesting are allowed. -/
def Level.parser (levels : Nat) : Level → Parser Expr
  | disjunction => Parser.disjunction (Parser.operand levels)
  | conjunction => Parser.conjunction (Parser.operand levels)
  | comparison => Parser.comparison (Parser.operand levels)
  | sum => Parser.sum (Parser.operand levels)
  | product => Parser.product (Parser.operand levels)
  | operand => Parser.operand levels
  | primary => Parser.primary (Parser.innerOperand levels)

/-- Every level above the operands is read as a chain of the next tighter one. -/
theorem Level.parser_eq_chain {l m : Level} (hl : l.tighter? = some m) (hne : l ≠ .operand)
    (levels : Nat) :
    l.parser levels = Parser.chain (fun op => op.level = l) (m.parser levels) := by
  cases l <;> cases hl
  case operand => exact absurd rfl hne
  all_goals
    refine congrArg (Parser.chain · _) (funext fun op => ?_)
    rcases op with op | op | op <;> cases op <;> rfl

end Grammar

namespace Parser

/-! ### Expressions

In these lemmas `levels` levels of nesting are left at depth `d`. -/

section Expressions

variable {levels d : Nat}

/-- What stands one level further in is read by the grammar one level deeper. -/
def ReadsInside (levels d : Nat) : Prop :=
  ∀ k, levels = k + 1 → d < maxNesting ∧ ∀ l : Level, Reads (l.parser k) (IsExpr l (d + 1))

theorem ReadsInside.of_deeper (h : ReadsInside levels d) {opening : Position} {p : Parser Expr}
    (hp : deeper (innerOperand levels) opening = .ok p) :
    d < maxNesting ∧ Reads p (IsExpr .operand (d + 1)) ∧
      Reads (disjunction p) (IsExpr .disjunction (d + 1)) := by
  cases levels with
  | zero => cases hp
  | succ k =>
    cases hp
    obtain ⟨hd, hreads⟩ := h k rfl
    exact ⟨hd, hreads .operand, hreads .disjunction⟩

theorem eq_cons_of_close {opening : Position} {expected : String} {runOut : Complaint}
    {ts rest : List Token} (h : close opening expected runOut ts = .ok rest) :
    ∃ c, c.kind = .rightParen ∧ ts = c :: rest := by
  cases ts with
  | nil => cases h
  | cons c ts =>
    dsimp only [close] at h
    split at h
    · next hc => cases h; exact ⟨c, hc, rfl⟩
    · cases h
    · cases h
    · cases h

theorem reads_group (hin : ReadsInside levels d) {o : Token} (ho : o.kind = .leftParen)
    {ts rest : List Token} {e : Expr}
    (h : group (innerOperand levels) o.position ts = .ok (e, rest)) :
    ∃ used, o :: ts = used ++ rest ∧ IsExpr .primary d used e := by
  obtain ⟨p, hp, h⟩ := bind_eq_ok.1 h
  obtain ⟨hd, -, hreads⟩ := hin.of_deeper hp
  obtain ⟨⟨e, behind⟩, hrun, h⟩ := bind_eq_ok.1 h
  obtain ⟨rest, hclose, h⟩ := bind_eq_ok.1 h
  cases h
  obtain ⟨used, rfl, hexpr⟩ := hreads hrun
  obtain ⟨c, hc, rfl⟩ := eq_cons_of_close hclose
  exact ⟨o :: (used ++ [c]), by simp, .group ho hc hd hexpr⟩

theorem reads_arguments (hin : ReadsInside levels d) {opening : Position}
    {ts rest : List Token} {es : List Expr}
    (h : arguments (innerOperand levels) opening ts = .ok (es, rest)) :
    ∃ used c, ts = used ++ c :: rest ∧ c.kind = .rightParen ∧ d < maxNesting ∧
      IsArguments (d + 1) used es := by
  obtain ⟨p, hp, h⟩ := bind_eq_ok.1 h
  obtain ⟨hd, -, hreads⟩ := hin.of_deeper hp
  split at h
  · next hstart =>
    cases h
    cases ts with
    | nil => cases hstart
    | cons c ts =>
      have hc : c.kind = .rightParen := by
        dsimp only [startsWithClose] at hstart
        split at hstart
        · assumption
        · cases hstart
      exact ⟨[], c, rfl, hc, hd, .none⟩
  · obtain ⟨⟨es, behind⟩, hrun, h⟩ := bind_eq_ok.1 h
    obtain ⟨rest, hclose, h⟩ := bind_eq_ok.1 h
    cases h
    have hlist : Reads (separated (disjunction p)) (IsList (d + 1)) :=
      reads_separated hreads (fun _ _ => .one) fun _ _ _ _ _ => .more
    obtain ⟨used, rfl, hes⟩ := hlist hrun
    obtain ⟨c, hc, rfl⟩ := eq_cons_of_close hclose
    exact ⟨used, c, rfl, hc, hd, .some hes⟩

theorem reads_named (hin : ReadsInside levels d) {t : Token} {name : String}
    (ht : t.kind = .identifier name) {ts rest : List Token} {e : Expr}
    (h : named (innerOperand levels) name t.position ts = .ok (e, rest)) :
    ∃ used, t :: ts = used ++ rest ∧ IsExpr .primary d used e := by
  cases ts with
  | nil => cases h; exact ⟨[t], rfl, .var ht⟩
  | cons o ts =>
    dsimp only [named] at h
    split at h
    · next ho =>
      obtain ⟨⟨es, behind⟩, hargs, h⟩ := bind_eq_ok.1 h
      cases h
      obtain ⟨used, c, rfl, hc, hd, hes⟩ := reads_arguments hin hargs
      exact ⟨t :: o :: (used ++ [c]), by simp, .call ht ho hc hd hes⟩
    · cases h
      exact ⟨[t], rfl, .var ht⟩

theorem reads_primary (hin : ReadsInside levels d) :
    Reads (primary (innerOperand levels)) (IsExpr .primary d) := by
  intro ts e rest h
  cases ts with
  | nil => cases h
  | cons t ts =>
    have hliteral : ∀ v : Literal, t.kind = v.kind →
        (.literal v t.position, ts) = (e, rest) →
        ∃ used, t :: ts = used ++ rest ∧ IsExpr .primary d used e := by
      rintro v hv heq
      cases heq
      exact ⟨[t], rfl, .literal hv⟩
    dsimp only [primary, primaryAt] at h
    split at h
    · next digits ht => exact hliteral (.integer digits) ht (Except.ok.inj h)
    · next value ht => exact hliteral (.float value) ht (Except.ok.inj h)
    · next text ht => exact hliteral (.string text) ht (Except.ok.inj h)
    · next value ht => exact hliteral (.boolean value) ht (Except.ok.inj h)
    · next ht => exact hliteral .walou ht (Except.ok.inj h)
    · next name ht => exact reads_named hin ht h
    · next ht => exact reads_group hin ht h
    · cases h
    · cases h

theorem kind_of_unary? {t : Token} {op : UnaryOperator} (h : unary? t = some op) :
    t.kind = op.kind := by
  rw [unary?] at h
  split at h <;> cases h <;> assumption

theorem reads_operandAround (hin : ReadsInside levels d) :
    Reads (operandAround (innerOperand levels)) (IsExpr .operand d) := by
  have hprimary : Reads (primary (innerOperand levels)) (IsExpr .operand d) :=
    (reads_primary hin).mono fun _ _ => .single rfl
  intro ts e rest h
  cases ts with
  | nil => exact hprimary h
  | cons t ts =>
    dsimp only [operandAround] at h
    split at h
    · next op hop =>
      obtain ⟨p, hp, h⟩ := bind_eq_ok.1 h
      obtain ⟨hd, hreads, -⟩ := hin.of_deeper hp
      obtain ⟨⟨e, behind⟩, hrun, h⟩ := bind_eq_ok.1 h
      cases h
      obtain ⟨used, rfl, hexpr⟩ := hreads hrun
      exact ⟨t :: used, rfl, .unary (kind_of_unary? hop) hd hexpr⟩
    · exact hprimary h

/-- A chain reads the chains of its level if its operands read the level below. -/
theorem reads_chain_level {l m : Level} (hl : l.tighter? = some m) (hne : l ≠ .operand)
    (h : Reads (m.parser levels) (IsExpr m d)) : Reads (l.parser levels) (IsExpr l d) := by
  rw [Level.parser_eq_chain hl hne]
  refine reads_chain h (fun _ _ => .single hl) ?_
  intro p left t op q right hleft ht hop hright hheight
  exact .binary hl (of_decide_eq_true hop) ht hleft hright hheight

theorem reads_level (hin : ReadsInside levels d) (l : Level) :
    Reads (l.parser levels) (IsExpr l d) := by
  refine Level.of_tighter (P := fun l => Reads (l.parser levels) (IsExpr l d))
    (reads_primary hin) ?_ (fun hl hne => reads_chain_level hl hne) l
  rw [Level.parser, operand_eq]
  exact reads_operandAround hin

end Expressions

/-- What holds at a depth if it holds one level further in, as long as a level is left there, holds
at every depth. -/
theorem nesting_induction {P : (levels depth : Nat) → Prop}
    (hstep : ∀ {levels d}, maxNesting - d = levels →
      (∀ k, levels = k + 1 → maxNesting - (d + 1) = k ∧ P k (d + 1)) → P levels d) (d : Nat) :
    P (maxNesting - d) d := by
  generalize hlevels : maxNesting - d = levels
  induction levels generalizing d with
  | zero => exact hstep hlevels fun k hk => absurd hk (Nat.zero_ne_add_one k)
  | succ levels ih =>
    refine hstep hlevels fun k hk => ?_
    cases hk
    have hinner : maxNesting - (d + 1) = levels := by omega
    exact ⟨hinner, ih (d + 1) hinner⟩

/-- **What is read as an expression is one.** -/
theorem reads_isExpr (d : Nat) (l : Level) : Reads (l.parser (maxNesting - d)) (IsExpr l d) := by
  refine nesting_induction (P := fun levels d => ∀ l : Level, Reads (l.parser levels) (IsExpr l d))
    (fun hlevels hin l => reads_level (fun k hk => ?_) l) d l
  exact ⟨by omega, (hin k hk).2⟩

end Parser

end DarjaLang
