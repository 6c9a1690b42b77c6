import DarjaLang.Builtin
import DarjaLang.Proofs.Value.Comparison

/-!
# Conversions between integers and floats

An integer becomes the float that is the same number, or it is refused.  A float becomes the
integer that is left without its fractional part, or it is refused.  Nothing is rounded in either
direction.

* `exactFloat?_eq_some_iff`: which integers become floats, and which floats they become.
* `Value.truncate?_of_number?`: which floats become integers, and which integers they become.  The
  range is asked of the truncated double, and in that range the cast does not clamp.
* `IsTruncation` says which answer a conversion to an integer has to give, and
  `conversions_exact` puts both directions together.
-/

set_option autoImplicit false

namespace DarjaLang

/-! ## From integers to floats -/

theorem exactFloat?_eq_some_iff {n : Int64} {x : Float} :
    exactFloat? n = some x ↔ n.toInt.natAbs ≤ 2 ^ 53 - 1 ∧ x = Binary64.ofInt n.toInt := by
  rw [exactFloat?, show maxExactInteger = 2 ^ 53 - 1 from rfl, Option.ite_none_right_eq_some,
    Option.some_inj, eq_comm (a := x)]

theorem exactFloat?_isSome_iff {n : Int64} :
    (exactFloat? n).isSome = true ↔ n.toInt.natAbs ≤ 2 ^ 53 - 1 := by
  simp [Option.isSome_iff_exists, exactFloat?_eq_some_iff]

/-- An integer that becomes a float is the same number. -/
theorem number?_of_exactFloat? {n : Int64} {x : Float} (h : exactFloat? n = some x) :
    Binary64.number? x = some ((n.toInt : ℚ) : WithBotTop ℚ) := by
  obtain ⟨hn, rfl⟩ := exactFloat?_eq_some_iff.1 h
  exact Binary64.number?_ofInt (by omega)

/-- Integers that become floats are ordered like these. -/
theorem lt_iff_of_exactFloat? {m n : Int64} {x y : Float} (hx : exactFloat? m = some x)
    (hy : exactFloat? n = some y) : x < y ↔ m < n := by
  rw [Binary64.lt_iff_of_number? (number?_of_exactFloat? hx) (number?_of_exactFloat? hy),
    Int.cast_lt, Int64.lt_iff_toInt_lt]

/-- Different integers become different floats. -/
theorem beq_iff_of_exactFloat? {m n : Int64} {x y : Float} (hx : exactFloat? m = some x)
    (hy : exactFloat? n = some y) : (x == y) = true ↔ m = n := by
  rw [Binary64.beq_iff_of_number? (number?_of_exactFloat? hx) (number?_of_exactFloat? hy),
    Int.cast_inj, Int64.toInt_inj]

/-! ## From floats to integers -/

namespace Value

variable {x : Float} {q : ℚ}

/-- **A finite float becomes the integer that is left without its fractional part**, if that is in
range. -/
theorem truncate?_of_number? (h : Binary64.number? x = some (q : WithBotTop ℚ)) :
    truncate? x = ofInt? (truncated q) := by
  have hfinite : x.isFinite = true := Binary64.isFinite_iff.2 ⟨q, h⟩
  have htrunc := Binary64.number?_trunc h
  have hlow : Binary64.trunc x < Binary64.ofInt Int64.minValue.toInt ↔ truncated q < -2 ^ 63 := by
    rw [Binary64.lt_iff_of_number? htrunc Binary64.number?_ofInt_minValue, Int.cast_lt]
  have hhigh : Binary64.trunc x ≥ Binary64.ofInt Int64.maxValue.toInt ↔ 2 ^ 63 ≤ truncated q := by
    rw [ge_iff_le, Binary64.le_iff_of_number? Binary64.number?_ofInt_maxValue htrunc, Int.cast_le]
  simp only [truncate?, hfinite, Bool.not_true, Bool.false_eq_true, if_false, Bool.or_eq_true,
    decide_eq_true_eq, hlow, hhigh]
  split_ifs with hout
  · rw [ofInt?_of_not_inRange]
    exact fun hrange => hout.elim (not_lt.2 hrange.1) (not_le.2 hrange.2)
  · have hrange : InRange (truncated q) := by
      rw [not_or, not_lt, not_le] at hout
      exact hout
    obtain ⟨w, hw, hanswer⟩ := ofInt?_of_inRange hrange
    rw [hanswer, ← Int64.toInt_inj.1 (hw.trans (Binary64.toInt_toInt64 htrunc hrange).symm)]

theorem truncate?_of_not_isFinite (h : x.isFinite = false) :
    truncate? x = .error (.invalidArgument (.notFinite x)) := by
  rw [truncate?, h]
  rfl

end Value

/-! ## Both directions -/

/-- The conversion of an integer to a float: the same number, unless the integer is so large that
not every one of its size is a float. -/
structure IsPromotion (n : Int64) (answer : Option Float) : Prop where
  isSome : answer.isSome = true ↔ n.toInt.natAbs ≤ 2 ^ 53 - 1
  number : ∀ x, answer = some x → Binary64.number? x = some ((n.toInt : ℚ) : WithBotTop ℚ)

/-- The conversion of a float to an integer: what is left without the fractional part, unless that
is out of range. -/
structure IsTruncation (x : Float) (answer : Except EvalError Value) : Prop where
  invalidArgument : ∀ i, answer = .error (.invalidArgument i) ↔
    (x.isNaN = true ∨ x.isInf = true) ∧ i = .notFinite x
  finite : ¬(x.isNaN = true ∨ x.isInf = true) →
    ∃ q : ℚ, Binary64.number? x = some (q : WithBotTop ℚ)
  integer : ∀ q : ℚ, Binary64.number? x = some (q : WithBotTop ℚ) → InRange (truncated q) →
    ∃ n : Int64, n.toInt = truncated q ∧ answer = .ok (.integer n)
  overflow : ∀ q : ℚ, Binary64.number? x = some (q : WithBotTop ℚ) →
    (answer = .error .overflow ↔ ¬InRange (truncated q))
  /-- The range can be asked of the truncated double, with the ends of the range as doubles. -/
  bounds : ∀ q : ℚ, Binary64.number? x = some (q : WithBotTop ℚ) →
    Binary64.number? (Binary64.trunc x) = some (((truncated q : ℤ) : ℚ) : WithBotTop ℚ) ∧
      (InRange (truncated q) ↔ Binary64.ofInt Int64.minValue.toInt ≤ Binary64.trunc x ∧
        Binary64.trunc x < Binary64.ofInt Int64.maxValue.toInt)
  /-- In the range the truncated double is cast to its own number, and not to an end. -/
  cast : ∀ q : ℚ, Binary64.number? x = some (q : WithBotTop ℚ) → InRange (truncated q) →
    (Binary64.toInt64 (Binary64.trunc x)).toInt = truncated q

theorem isPromotion_exactFloat? (n : Int64) : IsPromotion n (exactFloat? n) where
  isSome := exactFloat?_isSome_iff
  number _ h := number?_of_exactFloat? h

/-- Putting an integer into range blames nothing but the range. -/
theorem Value.ofInt?_ne_invalidArgument (n : ℤ) (i : BadArgument) :
    ofInt? n ≠ .error (.invalidArgument i) := by
  by_cases h : InRange n
  · obtain ⟨w, -, hw⟩ := ofInt?_of_inRange h
    rw [hw]
    nofun
  · rw [ofInt?_of_not_inRange h]
    nofun

theorem Value.ofInt?_eq_overflow_iff {n : ℤ} : ofInt? n = .error .overflow ↔ ¬InRange n := by
  refine ⟨fun h hn => ?_, ofInt?_of_not_inRange⟩
  obtain ⟨w, -, hw⟩ := ofInt?_of_inRange hn
  rw [hw] at h
  cases h

theorem isTruncation_truncate? (x : Float) : IsTruncation x (Value.truncate? x) where
  invalidArgument i := by
    rw [← Binary64.isFinite_eq_false_iff]
    cases hx : x.isFinite with
    | false => simp [Value.truncate?_of_not_isFinite hx, eq_comm]
    | true =>
      obtain ⟨q, hq⟩ := Binary64.isFinite_iff.1 hx
      simpa [Value.truncate?_of_number? hq] using Value.ofInt?_ne_invalidArgument (truncated q) i
  finite h := by
    rwa [← Binary64.isFinite_eq_false_iff, Bool.not_eq_false, Binary64.isFinite_iff] at h
  integer q hq hrange := Value.truncate?_of_number? hq ▸ Value.ofInt?_of_inRange hrange
  overflow q hq := by rw [Value.truncate?_of_number? hq, Value.ofInt?_eq_overflow_iff]
  bounds q hq :=
    ⟨Binary64.number?_trunc hq, (Binary64.inRange_iff (Binary64.number?_trunc hq)).symm⟩
  cast q hq := Binary64.toInt_toInt64 (Binary64.number?_trunc hq)

theorem callFunction_float_integer (n : Int64) :
    callFunction "float" [.integer n] = (Value.integer n).toFloat?.map .float := rfl

theorem callFunction_int_float (x : Float) :
    callFunction "int" [.float x] = Value.truncate? x := rfl

/-- An integer that became a float comes back as it was. -/
theorem callFunction_int_of_float {n : Int64} {v : Value}
    (h : callFunction "float" [.integer n] = .ok v) :
    callFunction "int" [v] = .ok (.integer n) := by
  rw [callFunction_float_integer] at h
  cases hx : exactFloat? n with
  | none => simp [Value.toFloat?, hx, Except.map] at h
  | some x =>
    obtain rfl : Value.float x = v := by simpa [Value.toFloat?, hx, Except.map] using h
    rw [callFunction_int_float, Value.truncate?_of_number? (number?_of_exactFloat? hx),
      truncated_intCast]
    simp only [Value.ofInt?, Numeral.fit?_toInt]

/-- **Conversions between integers and floats are exact or refused.**  An integer that becomes a
float is the same number, keeps its place among the others and comes back; a float becomes the
integer that is left without its fractional part. -/
theorem conversions_exact :
    (∀ n : Int64, IsPromotion n (exactFloat? n)) ∧
      (∀ (n : Int64) (v : Value), callFunction "float" [.integer n] = .ok v →
        callFunction "int" [v] = .ok (.integer n)) ∧
      (∀ (m n : Int64) (x y : Float), exactFloat? m = some x → exactFloat? n = some y →
        ((x == y) = true ↔ m = n) ∧ (x < y ↔ m < n)) ∧
      ∀ x : Float, IsTruncation x (Value.truncate? x) :=
  ⟨isPromotion_exactFloat?, fun _ _ => callFunction_int_of_float,
    fun _ _ _ _ hx hy => ⟨beq_iff_of_exactFloat? hx hy, lt_iff_of_exactFloat? hx hy⟩,
    isTruncation_truncate?⟩

/-- The greatest integer that becomes a float comes back, and `2 ^ 63` does not become the greatest
integer. -/
theorem conversions_exact_at_bounds :
    callFunction "int" [.float (Binary64.ofInt 9007199254740991)] =
        .ok (.integer 9007199254740991) ∧
      Value.truncate? (Binary64.ofInt (2 ^ 63)) = .error .overflow := by
  have hnumber : Binary64.number? (Binary64.ofInt (2 ^ 63)) =
      some (((2 ^ 63 : ℤ) : ℚ) : WithBotTop ℚ) :=
    Binary64.number?_ofInt_two_pow (k := 63) (by decide) (by decide)
  refine ⟨conversions_exact.2.1 _ _ rfl, ((conversions_exact.2.2.2 _).overflow _ hnumber).2 ?_⟩
  rw [truncated_intCast]
  exact fun h => absurd h.2 (by decide)

end DarjaLang
