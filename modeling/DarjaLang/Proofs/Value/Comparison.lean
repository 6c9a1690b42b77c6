import DarjaLang.Proofs.Binary64.Integer

/-!
# Comparing values

Equality and order take different routes from an integer to a float.  Equality asks whether the
float has a fractional part and cuts it off; order turns the integer into a float and refuses to do
so if it is too large.  Both are about the same numbers.

* `Value.number?` is the number that a value stands for.
* `Value.integerEqualsFloat_iff`: the route of equality leads to sameness of numbers.
* `Value.equals_iff`: equality of values is sameness of their numbers.
* `Comparison.order?_of_not_clashes`: where an order is found, it is the order of the numbers.
* `Comparison.OrderedAs`: what every comparison of the same two values goes by.
* `Comparison.comparison_exact` puts this together.
-/

set_option autoImplicit false

namespace DarjaLang

open Std

namespace Value

variable {a b c : Value}

/-- The number that a value stands for.  NaN stands for none, and neither do other values. -/
def number? : Value → Option (WithBotTop ℚ)
  | integer n => some (n.toInt : ℚ)
  | float x => Binary64.number? x
  | _ => none

/-- The value is NaN. -/
def IsNaN : Value → Prop
  | float x => x.isNaN = true
  | _ => False

/-- One value is a float, and the other one is an integer that is too large to become one. -/
def Clashes (a b : Value) : Prop :=
  ∃ (n : Int64) (x : Float), 2 ^ 53 - 1 < n.toInt.natAbs ∧
    (a = integer n ∧ b = float x ∨ a = float x ∧ b = integer n)

theorem number?_eq_none_iff (h : a.isNumeric = true) : a.number? = none ↔ a.IsNaN := by
  cases a with
  | integer n => simp [number?, IsNaN]
  | float x => exact Binary64.number?_eq_none_iff
  | _ => cases h

theorem number?_of_not_isNumeric (h : a.isNumeric = false) : a.number? = none := by
  cases a with
  | integer | float => cases h
  | _ => rfl

theorem isNumeric_of_number? {p : WithBotTop ℚ} (h : a.number? = some p) : a.isNumeric = true := by
  cases a with
  | integer | float => rfl
  | _ => cases h

theorem Clashes.symm (h : a.Clashes b) : b.Clashes a := by
  obtain ⟨n, x, hn, hab⟩ := h
  exact ⟨n, x, hn, hab.symm.imp And.symm And.symm⟩

/-! ## Equality -/

/-- **An integer equals a float that has no fractional part and is in the range of integers, if the
cast of the float gives it.**  In that range a cast does not clamp, so they are the same number. -/
theorem integerEqualsFloat_iff {n : Int64} {x : Float} :
    integerEqualsFloat n x = true ↔
      Binary64.number? x = some ((n.toInt : ℚ) : WithBotTop ℚ) := by
  simp only [integerEqualsFloat, Bool.and_eq_true, decide_eq_true_eq, beq_iff_eq, ge_iff_le]
  constructor
  · rintro ⟨⟨⟨hfract, hge⟩, hlt⟩, hcast⟩
    obtain ⟨k, hk⟩ := Binary64.fract_beq_zero_iff.1 hfract
    rw [hk, ← Binary64.toInt_toInt64 hk ((Binary64.inRange_iff hk).1 ⟨hge, hlt⟩), hcast]
  · intro h
    obtain ⟨hge, hlt⟩ := (Binary64.inRange_iff h).2 (inRange_toInt n)
    exact ⟨⟨⟨Binary64.fract_beq_zero_iff.2 ⟨_, h⟩, hge⟩, hlt⟩,
      Int64.toInt_inj.1 (Binary64.toInt_toInt64 h (inRange_toInt n))⟩

theorem equals_iff_of_isNumeric (ha : a.isNumeric = true) (hb : b.isNumeric = true) :
    a.equals b = true ↔ ∃ p, a.number? = some p ∧ b.number? = some p := by
  cases a with
  | integer n => cases b with
    | integer k =>
      simp [equals, number?, WithBotTop.coe_injective.eq_iff, Int64.toInt_inj, eq_comm (a := k)]
    | float x => simp [equals, number?, integerEqualsFloat_iff]
    | _ => cases hb
  | float x => cases b with
    | integer k => simp [equals, number?, integerEqualsFloat_iff]
    | float y => simp [equals, number?, Binary64.beq_iff, Option.map₂_eq_some_iff]
    | _ => cases hb
  | _ => cases ha

theorem equals_iff_of_not_isNumeric (ha : a.isNumeric = false) :
    a.equals b = true ↔ a = b := by
  cases a <;> cases b <;> simp_all [equals, isNumeric]

/-- **Numbers are equal if they are the same number**, and other values if they are the same
value. -/
theorem equals_iff : a.equals b = true ↔
    (∃ p, a.number? = some p ∧ b.number? = some p) ∨ a.isNumeric = false ∧ a = b := by
  by_cases ha : a.isNumeric = true
  · by_cases hb : b.isNumeric = true
    · simp [equals_iff_of_isNumeric ha hb, ha]
    · rw [Bool.not_eq_true] at hb
      have hne : a.equals b = false := by cases a <;> cases b <;> simp_all [equals, isNumeric]
      simp [hne, ha, number?_of_not_isNumeric hb]
  · rw [Bool.not_eq_true] at ha
    simp [equals_iff_of_not_isNumeric ha, ha, number?_of_not_isNumeric ha]

theorem equals_symm (h : a.equals b = true) : b.equals a = true := by
  rw [equals_iff] at h ⊢
  rcases h with ⟨p, ha, hb⟩ | ⟨ha, rfl⟩
  · exact .inl ⟨p, hb, ha⟩
  · exact .inr ⟨ha, rfl⟩

theorem equals_trans (h : a.equals b = true) (h' : b.equals c = true) : a.equals c = true := by
  rw [equals_iff] at h h' ⊢
  rcases h with ⟨p, ha, hb⟩ | ⟨-, rfl⟩
  · rcases h' with ⟨q, hb', hc⟩ | ⟨-, rfl⟩
    · obtain rfl := Option.some.inj (hb.symm.trans hb')
      exact .inl ⟨p, ha, hc⟩
    · exact .inl ⟨p, ha, hb⟩
  · exact h'

/-- Only NaN differs from itself. -/
theorem equals_self_iff : a.equals a = true ↔ ¬a.IsNaN := by
  by_cases ha : a.isNumeric = true
  · rw [equals_iff_of_isNumeric ha ha, ← number?_eq_none_iff ha, ← ne_eq,
      Option.ne_none_iff_exists']
    simp
  · rw [Bool.not_eq_true] at ha
    simp only [equals_iff, ha, true_and, or_true, true_iff]
    cases a <;> simp_all [IsNaN, isNumeric]

/-! ## Order -/

theorem toFloat?_integer (n : Int64) : (integer n).toFloat? =
    if n.toInt.natAbs ≤ maxExactInteger then .ok (Binary64.ofInt n.toInt)
    else .error .overflow := by
  rw [toFloat?, exactFloat?]
  split_ifs <;> rfl

/-- A value that becomes a float stands for the same number as before. -/
theorem number?_of_toFloat? {x : Float} (h : a.toFloat? = .ok x) :
    Binary64.number? x = a.number? := by
  cases a with
  | integer n =>
    rw [toFloat?_integer] at h
    split_ifs at h with hn
    cases h
    exact Binary64.number?_ofInt (Nat.lt_of_le_of_lt hn (by decide))
  | float y =>
    cases h
    rfl
  | _ => cases h

end Value

namespace Comparison
variable {a b c : Value} {op : Comparison}

open Value

/-- The comparison asks for an order. -/
def IsOrdering (op : Comparison) : Prop := op ≠ equal ∧ op ≠ notEqual

/-- What a comparison says of two numbers. -/
def Relates (op : Comparison) (p q : WithBotTop ℚ) : Prop :=
  match op with
  | less => p < q
  | greater => q < p
  | lessEqual => p ≤ q
  | greaterEqual => q ≤ p
  | equal => p = q
  | notEqual => p ≠ q

theorem holds_cmp (op : Comparison) (p q : WithBotTop ℚ) :
    op.holds (cmp p q) = true ↔ op.Relates p q := by
  cases op <;> simp [holds, Relates, cmp_eq_lt_iff, cmp_eq_gt_iff, cmp_eq_eq_iff]

/-- Beside a float, an integer is compared as a float. -/
theorem order?_integer_float (op : Comparison) (n : Int64) (x : Float) :
    op.order? (integer n) (float x) =
      (integer n).toFloat?.map fun y => Binary64.order? y x := by
  simp only [order?]
  cases (integer n).toFloat? <;> rfl

theorem order?_float_integer (op : Comparison) (x : Float) (n : Int64) :
    op.order? (float x) (integer n) =
      (integer n).toFloat?.map fun y => Binary64.order? x y := by
  simp only [order?]
  cases (integer n).toFloat? <;> rfl

theorem order?_of_clashes (h : a.Clashes b) : op.order? a b = .error .overflow := by
  obtain ⟨n, x, hn, hab⟩ := h
  have hlarge : ¬n.toInt.natAbs ≤ maxExactInteger := Nat.not_le.2 hn
  rcases hab with ⟨rfl, rfl⟩ | ⟨rfl, rfl⟩
  · rw [order?_integer_float, toFloat?_integer, if_neg hlarge]
    rfl
  · rw [order?_float_integer, toFloat?_integer, if_neg hlarge]
    rfl

/-- Unless they clash, numbers are ordered as what they are. -/
theorem order?_of_not_clashes (ha : a.isNumeric = true) (hb : b.isNumeric = true)
    (h : ¬a.Clashes b) : op.order? a b = .ok (Option.map₂ cmp a.number? b.number?) := by
  -- an integer that does not clash becomes the float that stands for the same number
  have hfloat : ∀ n x, ¬(integer n).Clashes (float x) →
      ∃ y, (integer n).toFloat? = .ok y ∧ Binary64.number? y = (integer n).number? :=
    fun n x h => by
      have hn : n.toInt.natAbs ≤ maxExactInteger :=
        Nat.not_lt.1 fun hlarge => h ⟨n, x, hlarge, .inl ⟨rfl, rfl⟩⟩
      have hy := toFloat?_integer n
      rw [if_pos hn] at hy
      exact ⟨_, hy, number?_of_toFloat? hy⟩
  cases a with
  | integer n => cases b with
    | integer k =>
      have hmono : StrictMono fun n : ℤ => ((n : ℚ) : WithBotTop ℚ) :=
        WithBotTop.coe_strictMono.comp Int.cast_strictMono
      simp only [order?, number?, Option.map₂_some_some]
      rw [hmono.cmp_map_eq, cmp_eq_compare]
    | float x =>
      obtain ⟨y, hy, hnumber⟩ := hfloat n x h
      rw [order?_integer_float, hy, ← hnumber]
      exact congrArg Except.ok (Binary64.order?_eq y x)
    | _ => cases hb
  | float x => cases b with
    | integer n =>
      obtain ⟨y, hy, hnumber⟩ := hfloat n x fun hclash => h hclash.symm
      rw [order?_float_integer, hy, ← hnumber]
      exact congrArg Except.ok (Binary64.order?_eq x y)
    | float y => exact congrArg Except.ok (Binary64.order?_eq x y)
    | _ => cases hb
  | _ => cases ha

/-- What cannot be ordered cannot be compared, and otherwise the order decides. -/
theorem apply_eq (hop : op.IsOrdering) (a b : Value) :
    op.apply a b = (op.order? a b).map fun o => boolean (o.any op.holds) := by
  have hmap : ∀ x : Except EvalError (Option Ordering),
      (do let o ← x; return boolean (o.any op.holds)) = x.map fun o => boolean (o.any op.holds) :=
    fun x => by cases x <;> rfl
  cases op with
  | equal => exact absurd rfl hop.1
  | notEqual => exact absurd rfl hop.2
  | _ => exact hmap _

/-! ## Values that are ordered -/

/-- How two values are ordered, whatever asks for it. -/
structure OrderedAs (a b : Value) (o : Option Ordering) : Prop where
  order : ∀ op : Comparison, op.order? a b = .ok o
  swapped : ∀ op : Comparison, op.order? b a = .ok (o.map Ordering.swap)
  equals : a.equals b = true ↔ o = some .eq

theorem orderedAs_strings (s t : String) :
    OrderedAs (string s) (string t) (some (compare s t)) := by
  refine ⟨fun op => rfl, fun op => ?_, ?_⟩
  · rw [order?, OrientedOrd.eq_swap (a := t)]
    rfl
  · simp [Value.equals]

theorem orderedAs_numbers (ha : a.isNumeric = true) (hb : b.isNumeric = true)
    (h : ¬a.Clashes b) : OrderedAs a b (Option.map₂ cmp a.number? b.number?) := by
  refine ⟨fun op => order?_of_not_clashes ha hb h, fun op => ?_, ?_⟩
  · rw [order?_of_not_clashes hb ha fun hclash => h hclash.symm]
    rcases a.number? with _ | p <;> rcases b.number? with _ | q <;> simp [cmp_swap]
  · rw [equals_iff_of_isNumeric ha hb]
    simp [Option.map₂_eq_some_iff]

/-- If an order is found, the values are two strings, or two numbers that do not clash. -/
theorem cases_of_order? {o : Option Ordering} (h : op.order? a b = .ok o) :
    (∃ s t, a = string s ∧ b = string t ∧ o = some (compare s t)) ∨
      a.isNumeric = true ∧ b.isNumeric = true ∧ ¬a.Clashes b ∧
        o = Option.map₂ cmp a.number? b.number? := by
  by_cases hnumeric : a.isNumeric = true ∧ b.isNumeric = true
  · obtain ⟨ha, hb⟩ := hnumeric
    have hclash : ¬a.Clashes b := fun hclash => by
      rw [order?_of_clashes hclash] at h
      cases h
    rw [order?_of_not_clashes ha hb hclash] at h
    exact .inr ⟨ha, hb, hclash, (Except.ok.inj h).symm⟩
  · left
    cases a <;> cases b <;> simp_all [order?, isNumeric]

theorem exists_orderedAs {v : Value} (hop : op.IsOrdering) (h : op.apply a b = .ok v) :
    ∃ o, OrderedAs a b o := by
  rw [apply_eq hop] at h
  cases ho : op.order? a b with
  | error e =>
    rw [ho] at h
    cases h
  | ok o =>
    rcases cases_of_order? ho with ⟨s, t, rfl, rfl, -⟩ | ⟨ha, hb, hclash, -⟩
    · exact ⟨_, orderedAs_strings s t⟩
    · exact ⟨_, orderedAs_numbers ha hb hclash⟩

/-- The comparison is made, and it holds. -/
def Holds (op : Comparison) (a b : Value) : Prop := op.apply a b = .ok (.boolean true)

theorem isOrdering_iff : op.IsOrdering ↔
    op = less ∨ op = greater ∨ op = lessEqual ∨ op = greaterEqual := by
  cases op <;> simp [IsOrdering]

theorem isOrdering_less : less.IsOrdering := isOrdering_iff.2 (.inl rfl)

theorem holds_iff (hop : op.IsOrdering) :
    op.Holds a b ↔ ∃ o, op.order? a b = .ok (some o) ∧ op.holds o = true := by
  rw [Holds, apply_eq hop]
  rcases op.order? a b with e | _ | o <;> simp [Except.map]

/-- What it takes for one value to be less than another one. -/
theorem less_holds_iff : less.Holds a b ↔
    (∃ s t, a = string s ∧ b = string t ∧ compare s t = .lt) ∨
      ∃ p q, a.number? = some p ∧ b.number? = some q ∧ ¬a.Clashes b ∧ p < q := by
  rw [holds_iff isOrdering_less]
  constructor
  · rintro ⟨o, ho, hlt⟩
    obtain rfl : o = .lt := by simpa [holds] using hlt
    rcases cases_of_order? ho with ⟨s, t, rfl, rfl, hst⟩ | ⟨-, -, hclash, hpq⟩
    · exact .inl ⟨s, t, rfl, rfl, (Option.some.inj hst).symm⟩
    · obtain ⟨p, q, hp, hq, hlt⟩ := Option.map₂_eq_some_iff.1 hpq.symm
      exact .inr ⟨p, q, hp, hq, hclash, (cmp_eq_lt_iff p q).1 hlt⟩
  · rintro (⟨s, t, rfl, rfl, hst⟩ | ⟨p, q, hp, hq, hclash, hlt⟩)
    · exact ⟨_, (orderedAs_strings s t).order less, by simp [hst, holds]⟩
    · refine ⟨.lt, ?_, by simp [holds]⟩
      rw [order?_of_not_clashes (isNumeric_of_number? hp) (isNumeric_of_number? hq) hclash, hp, hq]
      simp [cmp_eq_lt_iff, hlt]

/-- From the least to the greatest of three values, unless these two clash. -/
theorem less_trans {v : Value} (hab : less.Holds a b) (hbc : less.Holds b c)
    (hac : less.apply a c = .ok v) : less.Holds a c := by
  rw [less_holds_iff] at hab hbc ⊢
  -- the value in the middle is a string or a number, and so all three are
  rcases hab with ⟨s, t, rfl, rfl, hst⟩ | ⟨p, q, hp, hq, -, hpq⟩
  · rcases hbc with ⟨_, u, ⟨rfl⟩, rfl, htu⟩ | ⟨_, _, hnone, -⟩
    · exact .inl ⟨s, u, rfl, rfl, TransCmp.lt_trans hst htu⟩
    · cases hnone
  · rcases hbc with ⟨_, _, rfl, -⟩ | ⟨q', r, hq', hr, -, hqr⟩
    · cases hq
    · obtain rfl := Option.some.inj (hq.symm.trans hq')
      have hclash : ¬a.Clashes c := fun hclash => by
        rw [apply_eq isOrdering_less, order?_of_clashes hclash] at hac
        cases hac
      exact .inr ⟨p, r, hp, hr, hclash, hpq.trans hqr⟩

/-- **Between numbers, only a clash is an error**, and otherwise the numbers themselves decide. -/
theorem apply_of_isNumeric (hop : op.IsOrdering) (ha : a.isNumeric = true)
    (hb : b.isNumeric = true) :
    (a.Clashes b ∧ op.apply a b = .error .overflow) ∨
      ¬a.Clashes b ∧ ∃ t, op.apply a b = .ok (.boolean t) ∧
        (t = true ↔ ∃ p q, a.number? = some p ∧ b.number? = some q ∧ op.Relates p q) := by
  by_cases hclash : a.Clashes b
  · refine .inl ⟨hclash, ?_⟩
    rw [apply_eq hop, order?_of_clashes hclash]
    rfl
  · refine .inr ⟨hclash, (Option.map₂ cmp a.number? b.number?).any op.holds, ?_, ?_⟩
    · rw [apply_eq hop, order?_of_not_clashes ha hb hclash]
      rfl
    · rcases a.number? with _ | p <;> rcases b.number? with _ | q <;> simp [holds_cmp]

/-! ## Comparisons agree with each other -/

/-- **What the comparisons say of ordered values is one order.** -/
theorem OrderedAs.agreement {o : Option Ordering} (h : OrderedAs a b o) :
    (lessEqual.Holds a b ↔ less.Holds a b ∨ a.equals b = true) ∧
      (greaterEqual.Holds a b ↔ lessEqual.Holds b a) ∧ (less.Holds a b ↔ greater.Holds b a) := by
  have hab : ∀ {op : Comparison}, op.IsOrdering → (op.Holds a b ↔ o.any op.holds = true) :=
    fun hop => by simp [Holds, apply_eq hop, h.order, Except.map]
  have hba : ∀ {op : Comparison}, op.IsOrdering →
      (op.Holds b a ↔ (o.map Ordering.swap).any op.holds = true) :=
    fun hop => by simp [Holds, apply_eq hop, h.swapped, Except.map]
  rw [hab isOrdering_less, hab (isOrdering_iff.2 (by simp)), hab (isOrdering_iff.2 (by simp)),
    hba (isOrdering_iff.2 (by simp)), hba (isOrdering_iff.2 (by simp)), h.equals]
  rcases o with _ | _ | _ | _ <;> simp [holds]

/-- **Comparison is exact, and its operators agree with each other.**  Every integer and every
float but NaN stands for one number or for one of the infinities.  Two of them are equal if they
stand for the same; equality is an equivalence of all values but NaN.  Two of them can be ordered
unless one is a float and the other one is an integer that is too large to become one, and then
the comparison says what is true of the numbers.  Wherever one order comparison succeeds, of
numbers or of strings, all of them belong to one order. -/
theorem comparison_exact :
    (∀ a : Value, a.isNumeric = true → (a.number? = none ↔ a.IsNaN)) ∧
    (∀ a b : Value, a.isNumeric = true → b.isNumeric = true →
      (a.equals b = true ↔ ¬a.IsNaN ∧ ¬b.IsNaN ∧ a.number? = b.number?)) ∧
    (∀ a b : Value, a.equals b = true → b.equals a = true) ∧
    (∀ a b c : Value, a.equals b = true → b.equals c = true → a.equals c = true) ∧
    (∀ a : Value, a.equals a = true ↔ ¬a.IsNaN) ∧
    (∀ (op : Comparison) (a b : Value), op.IsOrdering →
      a.isNumeric = true → b.isNumeric = true →
      ((∃ e, op.apply a b = .error e) ↔ a.Clashes b) ∧
      (a.Clashes b → op.apply a b = .error .overflow) ∧
      (¬a.Clashes b → ∃ t, op.apply a b = .ok (.boolean t) ∧
        (t = true ↔ ∃ p q, a.number? = some p ∧ b.number? = some q ∧ op.Relates p q))) ∧
    (∀ (op : Comparison) (a b v : Value), op.IsOrdering → op.apply a b = .ok v →
      (lessEqual.Holds a b ↔ less.Holds a b ∨ a.equals b = true) ∧
      (greaterEqual.Holds a b ↔ lessEqual.Holds b a) ∧
      (less.Holds a b ↔ greater.Holds b a)) ∧
    ∀ a b c v : Value, less.Holds a b → less.Holds b c → less.apply a c = .ok v →
      less.Holds a c := by
  refine ⟨fun a => number?_eq_none_iff, fun a b ha hb => ?_, fun a b => equals_symm,
    fun a b c => equals_trans, fun a => equals_self_iff, fun op a b hop ha hb => ?_,
    fun op a b v hop h => ?_, fun a b c v => less_trans⟩
  · rw [equals_iff_of_isNumeric ha hb, ← number?_eq_none_iff ha, ← number?_eq_none_iff hb]
    rcases a.number? with _ | p <;> rcases b.number? with _ | q <;> simp [eq_comm]
  · rcases apply_of_isNumeric hop ha hb with ⟨hclash, h⟩ | ⟨hclash, t, h, ht⟩
    · exact ⟨by simp [h, hclash], fun _ => h, fun hno => absurd hclash hno⟩
    · exact ⟨by simp [h, hclash], fun hyes => absurd hyes hclash, fun _ => ⟨t, h, ht⟩⟩
  · obtain ⟨o, ho⟩ := exists_orderedAs hop h
    exact ho.agreement

/-- Numbers around `2 ^ 53`: the next integer is not rounded to the float and cannot be ordered
beside it, but smaller integers can. -/
theorem comparison_exact_at_two_pow :
    let limit : Value := float (Binary64.ofInt (2 ^ 53))
    ¬(integer 9007199254740993).equals limit = true ∧
      (integer 9007199254740992).equals limit = true ∧
      limit.equals (integer 9007199254740992) = true ∧
      less.apply (integer 9007199254740993) limit = .error .overflow ∧
      (less.Holds (integer 9007199254740991) limit ↔
        greater.Holds limit (integer 9007199254740991)) ∧
      less.Holds (integer 1) (integer 3) := by
  obtain ⟨-, hequal, hsymm, -, -, horder, hagree, htrans⟩ := comparison_exact
  have hlimit : Binary64.number? (Binary64.ofInt (2 ^ 53)) =
      some (((2 ^ 53 : ℤ) : ℚ) : WithBotTop ℚ) :=
    Binary64.number?_ofInt_two_pow (k := 53) (by decide) (by decide)
  have hsame : (integer 9007199254740992).equals (float (Binary64.ofInt (2 ^ 53))) = true := by
    decide
  refine ⟨fun h => ?_, hsame, hsymm _ _ hsame, ?_, ?_, ?_⟩
  · have hnumbers := ((hequal _ _ rfl rfl).1 h).2.2
    rw [Value.number?, Value.number?, hlimit, Option.some.injEq, WithBotTop.coe_injective.eq_iff]
      at hnumbers
    norm_cast at hnumbers
  · refine (horder less _ _ isOrdering_less rfl rfl).2.1 ⟨_, _, ?_, .inl ⟨rfl, rfl⟩⟩
    decide
  · exact (hagree less _ _ (.boolean true) isOrdering_less rfl).2.2
  · exact htrans (integer 1) (float 2.5) (integer 3) (.boolean true)
      rfl rfl rfl

end Comparison

end DarjaLang
