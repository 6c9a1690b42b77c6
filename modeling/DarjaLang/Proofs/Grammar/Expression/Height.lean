import DarjaLang.Proofs.Grammar.Expression.Completeness
import DarjaLang.Proofs.Syntax.Parts

/-!
# The height of expressions

Two limits work together.  The height of a binary node is limited as such, whatever is below it.
Operators in front of an operand and calls are not limited in this way, but each of them takes one
level of nesting.  So on the way down from the root of an expression there are at most as many of
these as there are levels left, and then a binary node or a leaf.

* `IsExpr.operatorsLimited` and `IsExpr.height_le` are the two bounds.
* `exists_highest`: the second bound is attained at every depth, by calls around a sum.
-/

set_option autoImplicit false

namespace DarjaLang

/-- No binary node of the expression is higher than is allowed. -/
def Expr.OperatorsLimited (e : Expr) : Prop :=
  ∀ op left right position, (Expr.binary op left right position).Within e →
    (Expr.binary op left right position).height ≤ maxOperatorHeight

theorem Expr.maxHeight_le {es : List Expr} {n : Nat} (h : ∀ e ∈ es, e.height ≤ n) :
    Expr.maxHeight es ≤ n := by
  induction es with
  | nil => exact Nat.zero_le n
  | cons e es ih =>
    rw [List.forall_mem_cons] at h
    rw [Expr.maxHeight]
    exact Nat.max_le.2 ⟨h.1, ih h.2⟩

theorem Expr.height_le_maxHeight {e : Expr} {es : List Expr} (h : e ∈ es) :
    e.height ≤ Expr.maxHeight es := by
  induction es with
  | nil => cases h
  | cons first es ih =>
    rw [Expr.maxHeight]
    rcases List.mem_cons.1 h with rfl | h
    · exact Nat.le_max_left _ _
    · exact Nat.le_trans (ih h) (Nat.le_max_right _ _)

/-- A part of an expression is not higher than the whole. -/
theorem Expr.Within.height_le {node e : Expr} (h : node.Within e) : node.height ≤ e.height := by
  induction h with
  | here => exact Nat.le_refl _
  | unary _ ih =>
    rw [Expr.height]
    omega
  | left _ ih =>
    rw [Expr.height]
    omega
  | right _ ih =>
    rw [Expr.height]
    omega
  | argument he _ ih =>
    have hle := Expr.height_le_maxHeight he
    rw [Expr.height]
    omega

namespace Grammar

/-! ## Upper bounds -/

mutual

/-- **No binary node of an expression is higher than is allowed.** -/
theorem IsExpr.operatorsLimited {l : Level} {d : Nat} {p : List Token} {e : Expr} :
    IsExpr l d p e → e.OperatorsLimited
  | .single _ h => h.operatorsLimited
  | .binary _ _ _ hleft hright hheight => fun op left right position hnode => by
    cases hnode with
    | here => exact hheight
    | left h => exact hleft.operatorsLimited op left right position h
    | right h => exact hright.operatorsLimited op left right position h
  | .unary _ _ h => fun op left right position hnode => by
    cases hnode with
    | unary hnode => exact h.operatorsLimited op left right position hnode
  | .literal _ => fun _ _ _ _ hnode => by cases hnode
  | .var _ => fun _ _ _ _ hnode => by cases hnode
  | .call _ _ _ _ h => fun op left right position hnode => by
    cases hnode with
    | argument he hnode => exact h.operatorsLimited _ he op left right position hnode
  | .group _ _ _ h => h.operatorsLimited

theorem IsList.operatorsLimited {d : Nat} {p : List Token} {es : List Expr} :
    IsList d p es → ∀ e ∈ es, e.OperatorsLimited
  | .one h => List.forall_mem_singleton.2 h.operatorsLimited
  | .more h _ hs => List.forall_mem_cons.2 ⟨h.operatorsLimited, hs.operatorsLimited⟩

theorem IsArguments.operatorsLimited {d : Nat} {p : List Token} {es : List Expr} :
    IsArguments d p es → ∀ e ∈ es, e.OperatorsLimited
  | .none => nofun
  | .some h => h.operatorsLimited

end

mutual

/-- **The height of an expression**: each level of nesting that is left may add one to the height of
a binary node. -/
theorem IsExpr.height_le {l : Level} {d : Nat} {p : List Token} {e : Expr} :
    IsExpr l d p e → e.height ≤ maxOperatorHeight + (maxNesting - d)
  | .single _ h => h.height_le
  | .binary _ _ _ _ _ hheight => Nat.le_add_right_of_le hheight
  | .unary _ hd h => by
    have hinner := h.height_le
    rw [Expr.height]
    omega
  | .literal _ => by
    rw [Expr.height, maxOperatorHeight]
    omega
  | .var _ => by
    rw [Expr.height, maxOperatorHeight]
    omega
  | .call _ _ _ hd h => by
    have hinner := Expr.maxHeight_le h.height_le
    rw [Expr.height]
    omega
  | .group _ _ hd h => by
    have hinner := h.height_le
    omega

theorem IsList.height_le {d : Nat} {p : List Token} {es : List Expr} :
    IsList d p es → ∀ e ∈ es, e.height ≤ maxOperatorHeight + (maxNesting - d)
  | .one h => List.forall_mem_singleton.2 h.height_le
  | .more h _ hs => List.forall_mem_cons.2 ⟨h.height_le, hs.height_le⟩

theorem IsArguments.height_le {d : Nat} {p : List Token} {es : List Expr} :
    IsArguments d p es → ∀ e ∈ es, e.height ≤ maxOperatorHeight + (maxNesting - d)
  | .none => nofun
  | .some h => h.height_le

end

/-! ## The bound is attained -/

/-- A token of a kind. -/
def ofKind (kind : Token.Kind) : Token := ⟨kind, "", .unknown⟩

theorem isExpr_x (d : Nat) (l : Level) :
    IsExpr l d [ofKind (.identifier "x")] (.var "x" .unknown) :=
  .of_primary (.var rfl) l

/-- The sum of `n + 1` variables is as high as it has variables. -/
theorem exists_sum (d : Nat) {n : Nat} (hn : n + 1 ≤ maxOperatorHeight) :
    ∃ p e, IsExpr .sum d p e ∧ e.height = n + 1 := by
  induction n with
  | zero => exact ⟨_, _, isExpr_x d .sum, rfl⟩
  | succ n ih =>
    obtain ⟨p, e, h, hheight⟩ := ih (by omega)
    have hnode : (Expr.binary (.arithmetic .add) e (.var "x" .unknown) .unknown).height =
        n + 1 + 1 := by
      rw [Expr.height, Expr.height, hheight]
      omega
    have hplus : (ofKind (.operator (.arithmetic .add))).kind = .operator (.arithmetic .add) := rfl
    exact ⟨_, _, .binary rfl rfl hplus h (isExpr_x d .product) (hnode ▸ hn), hnode⟩

/-- **At every depth there is an expression of the greatest height**: calls around calls, as many as
there are levels left, and the highest sum inside them. -/
theorem exists_highest {d k : Nat} (hd : d + k = maxNesting) :
    ∃ p e, IsExpr .disjunction d p e ∧ e.height = maxOperatorHeight + k := by
  induction k generalizing d with
  | zero =>
    obtain ⟨p, e, h, hheight⟩ := exists_sum d (n := maxOperatorHeight - 1) (by decide)
    exact ⟨p, e, .single rfl (.single rfl (.single rfl h)), hheight⟩
  | succ k ih =>
    obtain ⟨p, e, h, hheight⟩ := ih (d := d + 1) (by omega)
    have hcall : IsExpr .primary d (ofKind (.identifier "f") :: ofKind .leftParen ::
        (p ++ [ofKind .rightParen])) (.call "f" [e] .unknown) :=
      .call rfl rfl rfl (by omega) (.some (.one h))
    refine ⟨_, _, hcall.of_primary .disjunction, ?_⟩
    rw [Expr.height, Expr.maxHeight, Expr.maxHeight, hheight]
    omega

end Grammar

end DarjaLang
