import DarjaLang.Proofs.Binary64.Number
import DarjaLang.Proofs.Binary64.Rounding

/-!
# Operations on doubles that keep to the finite ones

* `isFinite_neg`, `isFinite_abs`, `isFinite_sqrt`, `isFinite_least` and `isFinite_greatest`: what
  these make of finite doubles is finite.
* `finiteUnlessLarge_ofDecimal`: a decimal fraction is read as a finite double unless it is too
  large for one.
* `ofDecimal_eq_of_isCanonical`: a decimal fraction that is a double is read as that double.
-/

set_option autoImplicit false

namespace DarjaLang

open Float.Model (UnpackedFloat Format totalExponent)
open Float.Model.UnpackedFloat (ExtendedMantissa Accuracy)

namespace Binary64

variable {x y : Float}

/-! ## Signs and choices -/

/-- A finite double is zero or has a mantissa. -/
theorem unpack_of_isFinite (h : x.isFinite = true) :
    (∃ sign, unpack x = .zero sign) ∨ ∃ sign m e pos, unpack x = .finite sign m e pos := by
  have hx : (unpack x).isFinite = true := h
  cases hunpack : unpack x with
  | zero sign => exact .inl ⟨sign, rfl⟩
  | finite sign m e pos => exact .inr ⟨sign, m, e, pos, rfl⟩
  | notANumber | infinity => simp [hunpack, UnpackedFloat.isFinite] at hx

theorem isFinite_pack_zero (sign : UnpackedFloat.Sign) : (pack (.zero sign)).isFinite = true := by
  cases sign <;> rfl

theorem isFinite_neg (h : x.isFinite = true) : (-x).isFinite = true := by
  show (pack (unpack x).neg).isFinite = true
  obtain ⟨sign, hx⟩ | ⟨sign, m, e, pos, hx⟩ := unpack_of_isFinite h
  · rw [hx]
    exact isFinite_pack_zero _
  · rw [hx]
    exact isFinite_pack pos (isCanonical_of_unpack hx).le

theorem isFinite_abs (h : x.isFinite = true) : x.abs.isFinite = true := by
  show (pack (unpack x).abs).isFinite = true
  obtain ⟨sign, hx⟩ | ⟨sign, m, e, pos, hx⟩ := unpack_of_isFinite h
  · rw [hx]
    exact isFinite_pack_zero _
  · rw [hx]
    exact isFinite_pack pos (isCanonical_of_unpack hx).le

theorem isFinite_least (hx : x.isFinite = true) (hy : y.isFinite = true) :
    (least x y).isFinite = true := by
  rw [least]
  split_ifs <;> assumption

theorem isFinite_greatest (hx : x.isFinite = true) (hy : y.isFinite = true) :
    (greatest x y).isFinite = true := by
  rw [greatest]
  split_ifs <;> assumption

/-! ## Square roots -/

/-- The root of a number has half as many bits. -/
theorem two_mul_log2_sqrt_le (n : ℕ) : 2 * n.sqrt.log2 ≤ n.log2 := by
  rcases Nat.eq_zero_or_pos n with rfl | hn
  · simp
  · rw [Nat.le_log2 hn.ne', Nat.mul_comm, Nat.pow_mul]
    calc (2 ^ n.sqrt.log2) ^ 2 ≤ n.sqrt ^ 2 :=
          Nat.pow_le_pow_left (Nat.log2_self_le (Nat.sqrt_pos.2 hn).ne') 2
      _ ≤ n := Nat.sqrt_le' n

/-- The root is cut off where it has bits enough, and that leaves it far below infinity. -/
theorem isFinite_sqrtCore {m : ℕ} {e : ℤ} (h : IsCanonical m e) (pos : 0 < m) :
    (pack (UnpackedFloat.sqrt .binary64 (.finite .positive m e pos))).isFinite = true := by
  have hlog : m.log2 ≤ 52 := Nat.le_of_lt_succ ((Nat.log2_lt pos.ne').2 h.lt)
  have hle := h.le
  refine isFinite_pack_roundWithAccuracy (.inl ?_)
  -- the exponent of the root is at most half of that of the number
  obtain ⟨target, htarget⟩ : ∃ target, target = min (e.ediv 2)
    (Format.binary64.targetExponent ((totalExponent m e + 1).ediv 2)) := ⟨_, rfl⟩
  rw [add_excess]
  simp only [← htarget, Nat.shiftLeft_eq]
  have hhalf : target ≤ e.ediv 2 := htarget ▸ min_le_left _ _
  have hroot := two_mul_log2_sqrt_le (m * 2 ^ (e - 2 * target).toNat)
  rw [log2_mul_two_pow pos] at hroot
  have hediv : 2 * e.ediv 2 ≤ e := Int.mul_ediv_self_le two_ne_zero
  omega

theorem isFinite_sqrt (h : x.isFinite = true) (hx : ¬x < 0.0) : x.sqrt.isFinite = true := by
  show (pack (UnpackedFloat.sqrt .binary64 (unpack x))).isFinite = true
  obtain ⟨sign, hunpack⟩ | ⟨sign, m, e, pos, hunpack⟩ := unpack_of_isFinite h
  · rw [hunpack]
    exact isFinite_pack_zero _
  · cases sign with
    | negative =>
      have hzero : number? 0.0 = some ((0 : ℚ) : WithBotTop ℚ) := by decide
      have hneg : number? x = some (rational .negative m e : WithBotTop ℚ) := by
        rw [number?, hunpack, numberOf?]
      refine absurd (lt_iff.2 ?_) hx
      rw [hzero, hneg, Option.map₂_some_some, cmp_coe,
        (cmp_eq_lt_iff _ _).2 (rational_negative_neg pos e)]
    | positive =>
      rw [hunpack]
      exact isFinite_sqrtCore (isCanonical_of_unpack hunpack) pos

/-! ## Decimal fractions -/

/-- A remainder tells on which side of the half a fraction lies. -/
theorem covers_accuracyOfFraction {d : ℕ} (hd : 0 < d) (n : ℕ) (e : ℤ) :
    Covers (ExtendedMantissa.ofMantissaAndAccuracy (n / d)
      (UnpackedFloat.accuracyOfFraction (n % d) d)) e (n / d * 2 ^ e) := by
  have hcast : (0 : ℚ) < d := Nat.cast_pos.2 hd
  have hpos : (0 : ℚ) < 2 ^ e := by positivity
  have hsplit : (n : ℚ) = d * ↑(n / d) + ↑(n % d) := by exact_mod_cast (Nat.div_add_mod n d).symm
  have hround : (ExtendedMantissa.ofMantissaAndAccuracy (n / d)
      (UnpackedFloat.accuracyOfFraction (n % d) d)).roundBit = true ↔ d ≤ 2 * (n % d) := by
    rw [UnpackedFloat.accuracyOfFraction]
    split_ifs with h
    · simp [ExtendedMantissa.ofMantissaAndAccuracy, h, hd.ne']
    · rcases lt_trichotomy (2 * (n % d)) d with hlt | heq | hgt
      · rw [compare_lt_iff_lt.2 hlt]
        simp [ExtendedMantissa.ofMantissaAndAccuracy, hlt]
      · rw [compare_eq_iff_eq.2 heq]
        simp [ExtendedMantissa.ofMantissaAndAccuracy, heq.ge]
      · rw [compare_gt_iff_gt.2 hgt]
        simp [ExtendedMantissa.ofMantissaAndAccuracy, hgt.le]
  have hmantissa : (ExtendedMantissa.ofMantissaAndAccuracy (n / d)
      (UnpackedFloat.accuracyOfFraction (n % d) d)).mantissa = n / d :=
    mantissa_ofMantissaAndAccuracy _ _
  constructor
  · rw [hmantissa]
    gcongr
    exact Nat.cast_div_le
  · rw [hmantissa]
    gcongr
    rw [div_lt_iff₀ hcast]
    have hlt : ((n % d : ℕ) : ℚ) < d := by exact_mod_cast Nat.mod_lt n hd
    linarith
  · rw [hround, hmantissa, mul_le_mul_iff_left₀ hpos, le_div_iff₀ hcast, hsplit,
      ← Nat.cast_le (α := ℚ)]
    push_cast
    constructor <;> intro h <;> linarith

/-- How many bits are added to the dividend, so that the quotient has enough. -/
def dividendShift (m n : ℕ) : ℕ := (-min 0 (max ((m.log2 : ℤ) - n.log2 - 53) (-1074))).toNat

theorem div_eq {m n : ℕ} (hm : 0 < m) (hn : 0 < n) :
    UnpackedFloat.div .binary64 (.finite .positive m 0 hm) (.finite .positive n 0 hn) =
      UnpackedFloat.roundWithAccuracy .binary64 .positive (m * 2 ^ dividendShift m n / n)
        (-dividendShift m n) (UnpackedFloat.accuracyOfFraction (m * 2 ^ dividendShift m n % n) n)
      := by
  have htarget : min (0 - 0) (Format.binary64.targetExponent
      (totalExponent m 0 - totalExponent n 0)) = -(dividendShift m n : ℤ) := by
    simp only [dividendShift, Format.targetExponent, totalExponent, Format.mantissaBits,
      Format.minExponent]
    norm_num
  have hshift : (0 - 0 - -(dividendShift m n : ℤ)).toNat = dividendShift m n := by omega
  simp only [UnpackedFloat.div, UnpackedFloat.divCore, htarget, hshift, Nat.shiftLeft_eq]
  rfl

/-- A quotient has about as many bits as the dividend has more than the divisor. -/
theorem log2_le_log2_div {n : ℕ} (hn : 0 < n) {a : ℕ} (ha : 0 < a) :
    a.log2 ≤ (a / n).log2 + n.log2 + 1 := by
  refine Nat.le_of_lt_succ ((Nat.log2_lt ha.ne').2 ?_)
  calc a < n * (a / n + 1) := Nat.lt_mul_div_succ a hn
    _ ≤ 2 ^ (n.log2 + 1) * 2 ^ ((a / n).log2 + 1) :=
        Nat.mul_le_mul Nat.lt_log2_self.le Nat.lt_log2_self
    _ = 2 ^ ((a / n).log2 + n.log2 + 1).succ := by
        rw [← Nat.pow_add]
        congr 1
        omega

/-- A fraction of natural numbers is rounded once. -/
theorem isRounded_div {m n : ℕ} (hm : 0 < m) (hn : 0 < n) :
    IsRounded .positive (m / n) (UnpackedFloat.div .binary64 (.finite .positive m 0 hm)
      (.finite .positive n 0 hn)) := by
  have hvalue : (m / n : ℚ) =
      (m * 2 ^ dividendShift m n : ℕ) / n * 2 ^ (-dividendShift m n : ℤ) := by
    push_cast
    rw [zpow_neg, zpow_natCast]
    field_simp
  have hlog := log2_le_log2_div hn (Nat.mul_pos hm (Nat.two_pow_pos (dividendShift m n)))
  rw [log2_mul_two_pow hm] at hlog
  rw [hvalue]
  refine ⟨_, _, _, covers_accuracyOfFraction hn _ _, ?_, div_eq hm hn⟩
  generalize (m * 2 ^ dividendShift m n / n).log2 = quotient at hlog ⊢
  rw [dividendShift] at hlog ⊢
  omega

/-- A natural number is rounded once. -/
theorem isRounded_natural {m : ℕ} (hm : 0 < m) :
    IsRounded .positive m (UnpackedFloat.roundWithAccuracy .binary64 .positive (m * 2 ^ 53) (-53)
      .exact) := by
  have hvalue : (m : ℚ) = (m * 2 ^ 53 : ℕ) * 2 ^ (-53 : ℤ) := by
    rw [Nat.cast_mul, mul_assoc, Nat.cast_pow, ← zpow_natCast]
    norm_num
  have hlog := log2_mul_two_pow hm 53
  rw [hvalue]
  exact ⟨_, _, _, covers_exact _ _, by omega, rfl⟩

/-- So many decimal places make a fraction smaller than any positive double. -/
theorem div_lt_of_log2_lt {m n : ℕ} (h : 2 ^ 11 + m.log2 < n) :
    (m : ℚ) / 10 ^ n < 2 ^ (-1074 : ℤ) := by
  have hm : (m : ℚ) < 2 ^ (m.log2 + 1) := by exact_mod_cast Nat.lt_log2_self
  have hn : (2 : ℚ) ^ (m.log2 + 1) ≤ 2 ^ (-1074 : ℤ) * 2 ^ n := by
    rw [← zpow_natCast, ← zpow_natCast, ← zpow_add₀ two_ne_zero]
    refine zpow_le_zpow_right₀ one_le_two ?_
    push_cast
    omega
  rw [div_lt_iff₀ (by positivity)]
  calc (m : ℚ) < 2 ^ (-1074 : ℤ) * 2 ^ n := hm.trans_le hn
    _ ≤ 2 ^ (-1074 : ℤ) * 10 ^ n := by gcongr; norm_num

/-- **A decimal fraction is rounded once**, or it is read as zero because it is zero or far below
the least positive double. -/
theorem ofDecimal_cases (m n : ℕ) :
    (m : ℚ) / 10 ^ n < 2 ^ (-1074 : ℤ) ∧ ofDecimal m (-n) = pack (.zero .positive) ∨
      ∃ u, IsRounded .positive (m / 10 ^ n) u ∧ ofDecimal m (-n) = pack u := by
  rw [ofDecimal, UnpackedFloat.ofScientific]
  rcases Nat.eq_zero_or_pos m with rfl | hm
  · rw [dif_pos rfl]
    refine .inl ⟨?_, rfl⟩
    rw [Nat.cast_zero, zero_div]
    positivity
  · rw [dif_neg hm.ne', if_neg (by simp)]
    split_ifs with hsmall hzero
    · refine .inl ⟨div_lt_of_log2_lt ?_, rfl⟩
      norm_num at hsmall ⊢
      omega
    · obtain rfl : n = 0 := by omega
      have hmul : m <<< 53 * 10 ^ (-((0 : ℕ) : ℤ)).toNat = m * 2 ^ 53 := by
        rw [Nat.shiftLeft_eq]
        exact Nat.mul_one _
      have hnatural := isRounded_natural hm
      rw [← hmul] at hnatural
      rw [pow_zero, div_one]
      exact .inr ⟨_, hnatural, rfl⟩
    · have hcast : (10 ^ n : ℚ) = (10 ^ (-(-(n : ℤ))).toNat : ℕ) := by simp
      rw [hcast]
      exact .inr ⟨_, isRounded_div hm (Nat.pow_pos (by decide)), rfl⟩

theorem finiteUnlessLarge_zero {x : ℚ} (hx : x ≤ 1) :
    FiniteUnlessLarge .positive x (pack (.zero .positive)) := by
  have hone : 1 < overflowBound := by
    refine lt_overflowBound (e := 0) (n := 1) ?_ (.inl ?_) <;> norm_num
  exact .inl ⟨hx.trans_lt hone, isFinite_pack_zero _⟩

/-- **A decimal fraction is read as a finite double unless it is half way from the greatest one to
`2 ^ 1024`, or beyond that**, and then as infinity. -/
theorem finiteUnlessLarge_ofDecimal (m n : ℕ) :
    FiniteUnlessLarge .positive (m / 10 ^ n) (ofDecimal m (-n)) := by
  rcases ofDecimal_cases m n with ⟨hsmall, h⟩ | ⟨u, hu, h⟩
  · rw [h]
    exact finiteUnlessLarge_zero (hsmall.le.trans (zpow_le_one_of_nonpos₀ one_le_two (by decide)))
  · rw [h]
    exact hu.finiteUnlessLarge

/-- **A decimal fraction that is a double is read as that double.** -/
theorem ofDecimal_eq_of_isCanonical {m n k : ℕ} {e : ℤ} (pos : 0 < m) (hcanonical : IsCanonical m e)
    (h : (k : ℚ) / 10 ^ n = m * 2 ^ e) : ofDecimal k (-n) = pack (.finite .positive m e pos) := by
  rcases ofDecimal_cases k n with ⟨hsmall, -⟩ | ⟨u, hu, hread⟩
  · have hone : (1 : ℚ) ≤ m := by exact_mod_cast pos
    have hleast : (2 : ℚ) ^ (-1074 : ℤ) ≤ 2 ^ e := zpow_le_zpow_right₀ one_le_two hcanonical.ge
    have hge := mul_le_mul hone hleast (by positivity) (by positivity)
    rw [one_mul, ← h] at hge
    exact absurd hsmall hge.not_gt
  · rw [h] at hu
    rw [hread, hu.eq_finite pos hcanonical]

end Binary64

end DarjaLang
