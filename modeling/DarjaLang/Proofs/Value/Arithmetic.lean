import DarjaLang.Value.Operation
import Mathlib.Data.Rat.Floor

/-!
# Arithmetic on integers

An operator on two integers of 64 bits has the result that it has on the integers, or it is refused.

* `Arithmetic.exact` is the result on the integers.  A quotient is the rational one without its
  fractional part, and a remainder is what the quotient leaves.
* `Arithmetic.IsExact` says that an answer is the exact result if that is in range, and a refusal if
  it is not, or if the divisor is zero.
* `Arithmetic.isExact_apply_iff`: every operator gives such answers, with one exception.  The
  remainder of the least integer by minus one is zero, but it is refused together with the quotient
  (`Arithmetic.not_isExact_remainder`).
-/

set_option autoImplicit false

namespace DarjaLang

/-! ## Truncation -/

/-- A rational number without its fractional part. -/
def truncated (x : ℚ) : ℤ := if 0 ≤ x then ⌊x⌋ else ⌈x⌉

theorem truncated_neg (x : ℚ) : truncated (-x) = -truncated x := by
  rw [truncated, truncated]
  rcases lt_trichotomy x 0 with hx | rfl | hx
  · rw [if_pos (neg_nonneg.2 hx.le), if_neg hx.not_ge, Int.floor_neg]
  · simp
  · rw [if_neg (neg_lt_zero.2 hx).not_ge, if_pos hx.le, Int.ceil_neg]

/-- Division toward zero is the division of rational numbers, truncated. -/
theorem truncated_div (a b : ℤ) : truncated (a / b) = a.tdiv b := by
  have hnat : ∀ m n : ℕ, truncated (m / n) = (m : ℤ).tdiv n := by
    intro m n
    rw [truncated, if_pos (by positivity), Rat.floor_natCast_div_natCast]
    rfl
  obtain ⟨m, rfl | rfl⟩ := a.eq_nat_or_neg
  · obtain ⟨n, rfl | rfl⟩ := b.eq_nat_or_neg
    · exact hnat m n
    · rw [Int.cast_neg, div_neg, truncated_neg, Int.tdiv_neg]
      exact congrArg Neg.neg (hnat m n)
  · obtain ⟨n, rfl | rfl⟩ := b.eq_nat_or_neg
    · rw [Int.cast_neg, neg_div, truncated_neg, Int.neg_tdiv]
      exact congrArg Neg.neg (hnat m n)
    · rw [Int.cast_neg, Int.cast_neg, neg_div_neg_eq, Int.neg_tdiv, Int.tdiv_neg, neg_neg]
      exact hnat m n

/-! ## The range of integers -/

/-- The integers of 64 bits. -/
def InRange (n : ℤ) : Prop := -2 ^ 63 ≤ n ∧ n < 2 ^ 63

theorem inRange_toInt (n : Int64) : InRange n.toInt := ⟨n.le_toInt, n.toInt_lt⟩

/-- Integers of 64 bits are divided toward zero, unless the quotient is out of range. -/
theorem toInt_div_eq_tdiv {a b : Int64} (h : ¬ (a = Int64.minValue ∧ b = -1)) :
    (a / b).toInt = a.toInt.tdiv b.toInt := by
  by_cases ha : a = Int64.minValue
  · exact Int64.toInt_div_of_ne_right a b fun hb => h ⟨ha, hb⟩
  · exact Int64.toInt_div_of_ne_left a b ha

/-- An integer in range is a value. -/
theorem Value.ofInt?_of_inRange {n : ℤ} (h : InRange n) :
    ∃ w : Int64, w.toInt = n ∧ ofInt? n = .ok (.integer w) := by
  have hw : (Int64.ofInt n).toInt = n := Int64.toInt_ofInt_of_le h.1 h.2
  refine ⟨Int64.ofInt n, hw, ?_⟩
  have hfit := Numeral.fit?_toInt (Int64.ofInt n)
  rw [hw] at hfit
  rw [ofInt?, hfit]

/-- An integer out of range is refused. -/
theorem Value.ofInt?_of_not_inRange {n : ℤ} (h : ¬ InRange n) : ofInt? n = .error .overflow := by
  rw [ofInt?]
  split
  · next w hw => exact absurd (Numeral.toInt_of_fit? hw ▸ inRange_toInt w) h
  · rfl

namespace Arithmetic

variable {op : Arithmetic} {a b : Int64}

/-- The result of an operator on the integers. -/
def exact : Arithmetic → ℤ → ℤ → ℤ
  | add, a, b => a + b
  | subtract, a, b => a - b
  | multiply, a, b => a * b
  | divide, a, b => truncated (a / b)
  | remainder, a, b => a - b * truncated (a / b)

/-- The operator divides, and the divisor is zero. -/
def DividesByZero (op : Arithmetic) (b : Int64) : Prop := (op = divide ∨ op = remainder) ∧ b = 0

/-- The answer is the exact result if that is in range, and a refusal otherwise. -/
structure IsExact (op : Arithmetic) (a b : Int64) (answer : Except EvalError Value) : Prop where
  zero : answer = .error .divisionByZero ↔ op.DividesByZero b
  integer : ¬ op.DividesByZero b → InRange (op.exact a.toInt b.toInt) →
    ∃ n : Int64, n.toInt = op.exact a.toInt b.toInt ∧ answer = .ok (.integer n)
  overflow : ¬ op.DividesByZero b →
    (answer = .error .overflow ↔ ¬ InRange (op.exact a.toInt b.toInt))

/-- The least integer divided by minus one, of which the remainder is asked for. -/
def RemainderOverflows (op : Arithmetic) (a b : Int64) : Prop :=
  op = remainder ∧ a = Int64.minValue ∧ b = -1

theorem isExact_divisionByZero (h : op.DividesByZero b) :
    IsExact op a b (.error .divisionByZero) where
  zero := iff_of_true rfl h
  integer hne := absurd h hne
  overflow hne := absurd h hne

/-- Putting the exact result into range is exact. -/
theorem isExact_ofInt? (h : ¬ op.DividesByZero b) :
    IsExact op a b (Value.ofInt? (op.exact a.toInt b.toInt)) := by
  by_cases hrange : InRange (op.exact a.toInt b.toInt)
  · obtain ⟨w, hw, hanswer⟩ := Value.ofInt?_of_inRange hrange
    rw [hanswer]
    exact ⟨iff_of_false nofun h, fun _ _ => ⟨w, hw, rfl⟩,
      fun _ => iff_of_false nofun (not_not_intro hrange)⟩
  · rw [Value.ofInt?_of_not_inRange hrange]
    exact ⟨iff_of_false nofun h, fun _ h => absurd h hrange, fun _ => iff_of_true rfl hrange⟩

theorem exact_divide (a b : ℤ) : divide.exact a b = a.tdiv b := truncated_div a b

theorem exact_remainder (a b : ℤ) : remainder.exact a b = a.tmod b := by
  rw [exact, truncated_div, Int.tmod_def]

/-- A quotient is in range, unless the least integer is divided by minus one. -/
theorem inRange_tdiv (h : ¬ (a = Int64.minValue ∧ b = -1)) : InRange (a.toInt.tdiv b.toInt) :=
  toInt_div_eq_tdiv h ▸ inRange_toInt (a / b)

/-- A remainder is in range. -/
theorem inRange_tmod (a b : Int64) : InRange (a.toInt.tmod b.toInt) :=
  Int64.toInt_mod a b ▸ inRange_toInt (a % b)

/-- A remainder is computed behind its quotient. -/
theorem onIntegers_remainder {a b : ℤ} (hb : b ≠ 0) :
    remainder.onIntegers a b = Value.ofInt? (a.tdiv b) >>= fun _ => Value.ofInt? (a.tmod b) := by
  rw [onIntegers, if_neg hb]

theorem not_dividesByZero_of_overflows (h : op.RemainderOverflows a b) :
    ¬ op.DividesByZero b := by
  obtain ⟨-, -, rfl⟩ := h
  rintro ⟨-, hb⟩
  cases hb

/-- In the exceptional case the answer is a refusal, and the exact result is in range. -/
theorem not_isExact_of_overflows (h : op.RemainderOverflows a b) :
    ¬ IsExact op a b (op.apply (.integer a) (.integer b)) := by
  intro hexact
  have hoverflow := hexact.overflow (not_dividesByZero_of_overflows h)
  obtain ⟨rfl, rfl, rfl⟩ := h
  refine hoverflow.1 rfl ?_
  rw [exact_remainder]
  exact inRange_tmod _ _

theorem isExact_onIntegers (h : ¬ op.RemainderOverflows a b) :
    IsExact op a b (op.onIntegers a.toInt b.toInt) := by
  by_cases hzero : op.DividesByZero b
  · have hdivisor : b.toInt = 0 := by
      rw [hzero.2]
      rfl
    rcases hzero.1 with rfl | rfl
    · rw [onIntegers, if_pos hdivisor]
      exact isExact_divisionByZero hzero
    · rw [onIntegers, if_pos hdivisor]
      exact isExact_divisionByZero hzero
  · have hdivisor : op = divide ∨ op = remainder → b.toInt ≠ 0 :=
      fun hop hb => hzero ⟨hop, Int64.toInt_inj.1 hb⟩
    have hexact := isExact_ofInt? (a := a) hzero
    cases op with
    | add | subtract | multiply => exact hexact
    | divide =>
      rw [onIntegers, if_neg (hdivisor (.inl rfl)), ← exact_divide]
      exact hexact
    | remainder =>
      obtain ⟨w, -, hquotient⟩ := Value.ofInt?_of_inRange
        (inRange_tdiv (a := a) (b := b) fun hab => h ⟨rfl, hab⟩)
      rw [onIntegers_remainder (hdivisor (.inr rfl)), hquotient, ← exact_remainder]
      exact hexact

/-- **Arithmetic on integers is exact, or it is refused because it has to be**, with one exception:
the remainder of the least integer by minus one. -/
theorem isExact_apply_iff (op : Arithmetic) (a b : Int64) :
    IsExact op a b (op.apply (.integer a) (.integer b)) ↔ ¬ op.RemainderOverflows a b := by
  refine ⟨fun hexact h => not_isExact_of_overflows h hexact, fun h => ?_⟩
  rw [apply]
  exact isExact_onIntegers h

/-- The remainder of the least integer by minus one is zero, and it is refused. -/
theorem not_isExact_remainder :
    remainder.exact Int64.minValue.toInt (-1 : Int64).toInt = 0 ∧
      remainder.apply (.integer Int64.minValue) (.integer (-1)) = .error .overflow ∧
      ¬ IsExact remainder Int64.minValue (-1)
        (remainder.apply (.integer Int64.minValue) (.integer (-1))) := by
  refine ⟨?_, rfl, not_isExact_of_overflows ⟨rfl, rfl, rfl⟩⟩
  rw [exact_remainder]
  rfl

end Arithmetic

end DarjaLang
