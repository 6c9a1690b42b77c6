import DarjaLang.Proofs.Binary64.Number
import DarjaLang.Proofs.Binary64.Rounding
import DarjaLang.Proofs.Value.Arithmetic

/-!
# Doubles and integers

A double is cut into two parts at the point, and each part has no more bits than the double has.  So
neither is rounded, and what is asked of them as doubles is asked of the parts of the number.

* `number?_normalize`: an exact result that is a double is not rounded.
* `number?_ofInt`: an integer that has no more than 53 bits becomes the double that stands for it.
* `number?_trunc` and `number?_fract` are the two parts of a double.
* `fract_beq_zero_iff`: a double is an integer exactly if its fractional part equals zero.
* `toInt64_eq`: a cast to 64 bits cuts off the fractional part, and clamps.
* `inRange_iff`: among doubles, the range of integers ends before `2 ^ 63`, which the greatest one
  is rounded to.  Inside this range nothing is clamped (`toInt_toInt64`).
-/

set_option autoImplicit false

namespace DarjaLang

open Float.Model (UnpackedFloat Format)

theorem truncated_intCast (n : ℤ) : truncated n = n := by
  rw [truncated, Int.floor_intCast, Int.ceil_intCast, ite_self]

theorem truncated_zero : truncated 0 = 0 := by exact_mod_cast truncated_intCast 0

namespace Binary64

variable {sign : UnpackedFloat.Sign} {m : ℕ} {n e f : ℤ} {x y : Float} {p q : ℚ}

/-! ## Results that are not rounded -/

theorem natCast_mul_two_zpow (m k : ℕ) (e : ℤ) :
    ((m * 2 ^ k : ℕ) : ℚ) * 2 ^ (e - k) = m * 2 ^ e :=
  rational_shift .positive m k e

theorem isRounded_round (sign : UnpackedFloat.Sign) (pos : 0 < m) (e : ℤ) :
    IsRounded sign (m * 2 ^ e) (UnpackedFloat.round .binary64 sign m e) := by
  obtain ⟨k, hk⟩ : ∃ k : ℕ, (e - max ((m.log2 : ℤ) + e - 52) (-1074)).toNat = k := ⟨_, rfl⟩
  have hlog := log2_mul_two_pow pos k
  rw [UnpackedFloat.round, targetExponent_eq, UnpackedFloat.decreaseExponent, hk,
    Nat.shiftLeft_eq, ← natCast_mul_two_zpow m k e]
  exact ⟨_, _, _, covers_exact _ _, by omega, rfl⟩

/-- The magnitude has no more than 53 bits, and they are neither too small nor too large for a
double. -/
def IsShort (x : ℚ) : Prop :=
  ∃ (m : ℕ) (e : ℤ), x = m * 2 ^ e ∧ m < 2 ^ 53 ∧ -1074 ≤ e ∧ e ≤ 971

theorem isShort_natCast (h : m < 2 ^ 53) : IsShort m :=
  ⟨m, 0, by simp, h, by decide, by decide⟩

theorem rational_eq_mul (sign : UnpackedFloat.Sign) (m : ℕ) (e : ℤ) :
    rational sign m e = (sign.apply 1 : ℤ) * (m * 2 ^ e) := by
  cases sign <;> simp [rational, UnpackedFloat.Sign.apply]

theorem number?_pack_zero (sign : UnpackedFloat.Sign) :
    number? (pack (.zero sign)) = some ((0 : ℚ) : WithBotTop ℚ) := by
  cases sign <;> rfl

theorem number?_pack_finite (pos : 0 < m) (h : IsCanonical m e) :
    number? (pack (.finite sign m e pos)) = some (rational sign m e : WithBotTop ℚ) := by
  rw [number?, unpack_pack pos h, numberOf?]

theorem number?_round (sign : UnpackedFloat.Sign) (pos : 0 < m) (h : IsShort (m * 2 ^ e)) :
    number? (pack (UnpackedFloat.round .binary64 sign m e)) =
      some (rational sign m e : WithBotTop ℚ) := by
  obtain ⟨a, f, heq, ha, hge, hle⟩ := h
  have hpos : 0 < a := by
    have : (0 : ℚ) < a * 2 ^ f := heq ▸ by positivity
    exact_mod_cast pos_of_mul_pos_left this (by positivity)
  obtain ⟨k, hcut, hcanonical, -⟩ := exists_round_eq sign hpos ha hge hle
  have hround : IsRounded sign ((a * 2 ^ k : ℕ) * 2 ^ (f - k)) _ :=
    natCast_mul_two_zpow a k f ▸ heq ▸ isRounded_round sign pos e
  rw [hround.eq_finite hcut hcanonical, number?_pack_finite hcut hcanonical, rational_shift,
    rational_eq_mul, ← heq, ← rational_eq_mul]

/-- **An exact result that is a double is not rounded.** -/
theorem number?_normalize (zeroSign : UnpackedFloat.Sign) (h : IsShort (n.natAbs * 2 ^ e)) :
    number? (pack (UnpackedFloat.normalize .binary64 n e zeroSign)) =
      some ((n * 2 ^ e : ℚ) : WithBotTop ℚ) := by
  rw [UnpackedFloat.normalize]
  rcases lt_trichotomy n 0 with hn | rfl | hn
  · obtain ⟨k, rfl⟩ := Int.eq_ofNat_of_zero_le (neg_nonneg.2 hn.le) |>.imp fun k hk =>
      (neg_eq_iff_eq_neg.1 hk)
    rw [compare_lt_iff_lt.2 hn]
    simp only [neg_neg, Int.toNat_natCast, Int.natAbs_neg, Int.natAbs_natCast] at h ⊢
    rw [number?_round .negative (by omega) h, rational, Int.cast_neg, Int.cast_natCast, neg_mul]
  · rw [Int.cast_zero, zero_mul, compare_eq_iff_eq.2 rfl]
    exact number?_pack_zero zeroSign
  · obtain ⟨k, rfl⟩ := Int.eq_ofNat_of_zero_le hn.le
    rw [compare_gt_iff_gt.2 hn]
    simp only [Int.toNat_natCast, Int.natAbs_natCast] at h ⊢
    rw [number?_round .positive (by omega) h, rational, Int.cast_natCast]

/-- **An integer that has no more than 53 bits is converted exactly.** -/
theorem number?_ofInt (h : n.natAbs < 2 ^ 53) :
    number? (ofInt n) = some ((n : ℚ) : WithBotTop ℚ) := by
  have hnumber := number?_normalize (n := n) (e := 0) .positive
    (by simpa using isShort_natCast h)
  rwa [zpow_zero, mul_one] at hnumber

/-! ## Differences -/

theorem apply_mul_two_zpow (sign : UnpackedFloat.Sign) (m : ℕ) (e : ℤ) :
    (sign.apply m : ℤ) * (2 : ℚ) ^ e = rational sign m e := by
  cases sign <;> simp [rational, UnpackedFloat.Sign.apply]

theorem rational_neg (sign : UnpackedFloat.Sign) (m : ℕ) (e : ℤ) :
    rational (-sign) m e = -rational sign m e := by
  cases sign with
  | positive => rfl
  | negative => exact (neg_neg _).symm

/-- The mantissa of a number at a smaller exponent. -/
theorem apply_shiftLeft_mul (sign : UnpackedFloat.Sign) (m : ℕ) {e f : ℤ} (h : f ≤ e) :
    (sign.apply ↑(m <<< (e - f).toNat) : ℤ) * (2 : ℚ) ^ f = rational sign m e := by
  have hexponent : f = e - (e - f).toNat := by omega
  rw [apply_mul_two_zpow, Nat.shiftLeft_eq, ← rational_shift sign m (e - f).toNat e, ← hexponent]

/-- **A difference that is a double is not rounded.** -/
theorem number?_sub (hx : number? x = some (p : WithBotTop ℚ))
    (hy : number? y = some (q : WithBotTop ℚ)) (h : IsShort |p - q|) :
    number? (x - y) = some ((p - q : ℚ) : WithBotTop ℚ) := by
  show number? (pack (UnpackedFloat.sub .binary64 (unpack x) (unpack y))) = _
  obtain ⟨s, hs, rfl⟩ | ⟨s, m, e, pos, hs, rfl⟩ := unpack_of_number? hx <;>
    obtain ⟨t, ht, rfl⟩ | ⟨t, n, f, pos', ht, rfl⟩ := unpack_of_number? hy <;>
    rw [hs, ht]
  · rw [sub_zero]
    cases s <;> cases t <;> exact number?_pack_zero _
  · change number? (pack (.finite (-t) n f pos')) = _
    rw [number?_pack_finite pos' (isCanonical_of_unpack ht), rational_neg, zero_sub]
  · change number? (pack (.finite s m e pos)) = _
    rw [number?_pack_finite pos (isCanonical_of_unpack hs), sub_zero]
  · have hvalue : ((s.apply ↑(m <<< (e - min e f).toNat) - t.apply ↑(n <<< (f - min e f).toNat) :
        ℤ) : ℚ) * 2 ^ min e f = rational s m e - rational t n f := by
      rw [Int.cast_sub, sub_mul, apply_shiftLeft_mul s m (min_le_left e f),
        apply_shiftLeft_mul t n (min_le_right e f)]
    rw [← hvalue] at h ⊢
    refine number?_normalize .positive ?_
    rwa [abs_mul, abs_of_pos (by positivity : (0 : ℚ) < 2 ^ min e f), ← Int.cast_abs,
      Int.abs_eq_natAbs, Int.cast_natCast] at h

/-! ## The two parts of a double -/

theorem fraction_eq (m : ℕ) (e : ℤ) :
    ((fraction m e).1 : ℚ) / (fraction m e).2 = m * 2 ^ e := by
  rw [fraction]
  rcases le_total 0 e with he | he
  · obtain ⟨k, rfl⟩ := Int.eq_ofNat_of_zero_le he
    simp
  · obtain ⟨k, hk⟩ := Int.eq_ofNat_of_zero_le (neg_nonneg.2 he)
    obtain rfl : e = -k := by omega
    simp [zpow_neg, div_eq_mul_inv]

/-- A fraction is an integer if its denominator divides its numerator. -/
theorem magnitude_eq_intCast_iff (m : ℕ) (e n : ℤ) :
    (m : ℚ) * 2 ^ e = n ↔ (fraction m e).1 % (fraction m e).2 = 0 ∧
      ((fraction m e).1 / (fraction m e).2 : ℕ) = n := by
  have hden : 0 < (fraction m e).2 := Nat.two_pow_pos _
  rw [← fraction_eq, div_eq_iff (by positivity), ← Nat.dvd_iff_mod_eq_zero]
  norm_cast
  constructor
  · intro h
    have hn : 0 ≤ n := nonneg_of_mul_nonneg_left (h ▸ Int.natCast_nonneg _)
      (Int.natCast_pos.2 hden)
    obtain ⟨k, rfl⟩ := Int.eq_ofNat_of_zero_le hn
    norm_cast at h ⊢
    rw [h]
    exact ⟨Nat.dvd_mul_left _ _, Nat.mul_div_cancel _ hden⟩
  · rintro ⟨hdvd, rfl⟩
    exact_mod_cast (Nat.div_mul_cancel hdvd).symm

/-- A mantissa with an exponent, without its fractional part. -/
theorem truncated_rational (sign : UnpackedFloat.Sign) (m : ℕ) (e : ℤ) :
    truncated (rational sign m e) = sign.apply ↑((fraction m e).1 / (fraction m e).2) := by
  have hnat : truncated ((m : ℚ) * 2 ^ e) = ↑((fraction m e).1 / (fraction m e).2) := by
    rw [← fraction_eq]
    exact truncated_div (fraction m e).1 (fraction m e).2
  cases sign with
  | positive => exact hnat
  | negative => rw [rational, truncated_neg, hnat]; rfl

/-- Without a negative exponent there is no fractional part. -/
theorem rational_eq_truncated (sign : UnpackedFloat.Sign) (m : ℕ) (he : 0 ≤ e) :
    (truncated (rational sign m e) : ℚ) = rational sign m e := by
  obtain ⟨k, rfl⟩ := Int.eq_ofNat_of_zero_le he
  rw [truncated_rational]
  cases sign <;> simp [fraction, rational, UnpackedFloat.Sign.apply]

/-- What is left of a short mantissa has no more than its bits. -/
theorem fraction_div_lt (h : m < 2 ^ 53) (he : e ≤ 0) :
    (fraction m e).1 / (fraction m e).2 < 2 ^ 53 :=
  calc (fraction m e).1 / (fraction m e).2 ≤ (fraction m e).1 := Nat.div_le_self _ _
    _ = m := by simp [fraction, Int.toNat_of_nonpos he]
    _ < 2 ^ 53 := h

theorem natAbs_apply (sign : UnpackedFloat.Sign) (m : ℕ) : (sign.apply ↑m : ℤ).natAbs = m := by
  cases sign with
  | positive => exact Int.natAbs_natCast m
  | negative => exact (Int.natAbs_neg _).trans (Int.natAbs_natCast m)

/-- **Cutting off the fractional part of a double cuts off that of its number.** -/
theorem number?_trunc (h : number? x = some (q : WithBotTop ℚ)) :
    number? (trunc x) = some (((truncated q : ℤ) : ℚ) : WithBotTop ℚ) := by
  obtain ⟨sign, hx, rfl⟩ | ⟨sign, m, e, pos, hx, rfl⟩ := unpack_of_number? h
  · rw [trunc, hx, truncated_zero, Int.cast_zero]
    exact h
  · rw [trunc, hx]
    dsimp only
    split_ifs with he
    · rwa [rational_eq_truncated sign m he]
    · have hlt := fraction_div_lt (isCanonical_of_unpack hx).lt (not_le.1 he).le
      have hnumber := number?_normalize (n := sign.apply _) (e := 0) sign
        (by rw [natAbs_apply, zpow_zero, mul_one]; exact isShort_natCast hlt)
      rw [truncated_rational]
      rwa [zpow_zero, mul_one] at hnumber

/-- How much is cut off does not depend on the sign. -/
theorem abs_sub_truncated_rational (sign : UnpackedFloat.Sign) (m : ℕ) (e : ℤ) :
    |rational sign m e - truncated (rational sign m e)| =
      |(m : ℚ) * 2 ^ e - truncated (m * 2 ^ e)| := by
  cases sign with
  | positive => rfl
  | negative => rw [rational, truncated_neg, Int.cast_neg, neg_sub_neg, abs_sub_comm]

/-- What is cut off is as fine as the double, and smaller. -/
theorem isShort_sub_truncated (h : number? x = some (q : WithBotTop ℚ)) :
    IsShort |q - truncated q| := by
  obtain ⟨sign, hx, rfl⟩ | ⟨sign, m, e, pos, hx, rfl⟩ := unpack_of_number? h
  · simpa [truncated_zero] using isShort_natCast (m := 0) (by decide)
  · obtain ⟨hm, hge, hle, -⟩ := isCanonical_of_unpack hx
    rcases le_or_gt 0 e with he | he
    · simpa [rational_eq_truncated sign m he] using isShort_natCast (m := 0) (by decide)
    · obtain ⟨k, rfl⟩ : ∃ k : ℕ, e = -k := ⟨e.natAbs, by omega⟩
      refine ⟨m % 2 ^ k, -k, ?_, (Nat.mod_le _ _).trans_lt hm, hge, hle⟩
      have hsplit : (m : ℚ) = 2 ^ k * ↑(m / 2 ^ k) + ↑(m % 2 ^ k) := by
        exact_mod_cast (Nat.div_add_mod m (2 ^ k)).symm
      have hwhole : truncated ((m : ℚ) * 2 ^ (-k : ℤ)) = ↑(m / 2 ^ k) := by
        have h := truncated_rational .positive m (-k)
        simpa [rational, fraction, UnpackedFloat.Sign.apply] using h
      have hpart : (m : ℚ) * 2 ^ (-k : ℤ) - ↑(m / 2 ^ k) = ↑(m % 2 ^ k) * 2 ^ (-k : ℤ) := by
        rw [zpow_neg, zpow_natCast]
        field_simp
        linarith
      rw [abs_sub_truncated_rational, hwhole, Int.cast_natCast, hpart,
        abs_of_nonneg (by positivity)]

/-- **The fractional part of a double is that of its number.** -/
theorem number?_fract (h : number? x = some (q : WithBotTop ℚ)) :
    number? (fract x) = some ((q - truncated q : ℚ) : WithBotTop ℚ) :=
  number?_sub h (number?_trunc h) (isShort_sub_truncated h)

/-- An infinity is left as it is when it is truncated, and there is no difference between two. -/
theorem number?_fract_of_not_isFinite (h : x.isFinite = false) : number? (fract x) = none := by
  have hx : (unpack x).isFinite = false := h
  show number? (pack (UnpackedFloat.sub .binary64 (unpack x) (unpack (trunc x)))) = none
  rw [trunc]
  cases hunpack : unpack x with
  | notANumber =>
    dsimp only
    rw [hunpack]
    rfl
  | infinity sign =>
    dsimp only
    rw [hunpack]
    cases sign <;> rfl
  | zero | finite => simp [hunpack, UnpackedFloat.isFinite] at hx

/-- **A double is an integer exactly if its fractional part equals zero.** -/
theorem fract_beq_zero_iff :
    (fract x == 0.0) = true ↔ ∃ n : ℤ, number? x = some ((n : ℚ) : WithBotTop ℚ) := by
  have hzero : number? 0.0 = some ((0 : ℚ) : WithBotTop ℚ) := by decide
  cases hfinite : x.isFinite with
  | false =>
    rw [beq_iff, number?_fract_of_not_isFinite hfinite]
    simp only [Option.map₂_none_left, reduceCtorEq, false_iff, not_exists]
    intro n hn
    exact absurd (isFinite_iff.2 ⟨_, hn⟩) (by simp [hfinite])
  | true =>
    obtain ⟨q, hq⟩ := isFinite_iff.1 hfinite
    rw [beq_iff_of_number? (number?_fract hq) hzero, sub_eq_zero, hq]
    simp only [Option.some_inj, WithBotTop.coe_injective.eq_iff]
    refine ⟨fun h => ⟨_, h⟩, ?_⟩
    rintro ⟨n, rfl⟩
    rw [truncated_intCast]

/-- In terms of mantissa and exponent, no fraction is left. -/
theorem fract_beq_zero_iff_dvd {pos : 0 < m} (hx : unpack x = .finite sign m e pos) :
    (fract x == 0.0) = true ↔ (fraction m e).2 ∣ (fraction m e).1 := by
  have hnumber : number? x = some (rational sign m e : WithBotTop ℚ) := by
    rw [number?, hx, numberOf?]
  have hmagnitude : (∃ n : ℤ, rational sign m e = n) ↔ ∃ n : ℤ, (m : ℚ) * 2 ^ e = n := by
    cases sign with
    | positive => rfl
    | negative =>
      refine (Equiv.neg ℤ).exists_congr_left.trans (exists_congr fun n => ?_)
      simp [rational]
  rw [fract_beq_zero_iff, hnumber]
  simp only [Option.some_inj, WithBotTop.coe_injective.eq_iff]
  rw [hmagnitude, Nat.dvd_iff_mod_eq_zero]
  simp [magnitude_eq_intCast_iff]

/-! ## Integers of 64 bits -/

theorem roundToInt_eq (sign : UnpackedFloat.Sign) (m : ℕ) (e : ℤ) :
    UnpackedFloat.roundToInt sign m e = truncated (rational sign m e) := by
  rw [truncated_rational, UnpackedFloat.roundToInt]
  simp only [UnpackedFloat.decreaseExponent, UnpackedFloat.shiftToExponent, mantissa_shiftRight,
    mantissa_ofMantissaAndAccuracy, Nat.shiftLeft_eq, fraction, sub_zero]
  congr 4
  omega

/-- **A cast to 64 bits cuts off the fractional part, and clamps.** -/
theorem toInt64_eq (h : number? x = some (q : WithBotTop ℚ)) :
    toInt64 x = Int64.ofIntClamp (truncated q) := by
  show (unpack x).toInt64 = _
  rw [UnpackedFloat.toInt64]
  obtain ⟨sign, hx, rfl⟩ | ⟨sign, m, e, pos, hx, rfl⟩ := unpack_of_number? h
  · rw [hx, truncated_zero, UnpackedFloat.toInt]
  · rw [hx, UnpackedFloat.toInt, roundToInt_eq]

/-- In the range of integers nothing is clamped. -/
theorem toInt_toInt64 (h : number? x = some ((n : ℚ) : WithBotTop ℚ)) (hn : InRange n) :
    (toInt64 x).toInt = n := by
  rw [toInt64_eq h, truncated_intCast, Int64.toInt_ofIntClamp]
  · exact hn.1
  · exact Int.le_of_lt_add_one hn.2

theorem number?_ofInt_two_pow {k : ℕ} (hk : k ≤ 971) (h : n.natAbs = 2 ^ k) :
    number? (ofInt n) = some ((n : ℚ) : WithBotTop ℚ) := by
  have hnumber := number?_normalize (n := n) (e := 0) .positive
    ⟨1, k, by simp [h], by decide, by omega, by omega⟩
  rwa [zpow_zero, mul_one] at hnumber

theorem number?_ofInt_minValue : number? (ofInt Int64.minValue.toInt) =
    some (((-2 ^ 63 : ℤ) : ℚ) : WithBotTop ℚ) :=
  number?_ofInt_two_pow (k := 63) (by decide) (by decide)

/-- The greatest integer is rounded up. -/
theorem number?_ofInt_maxValue : number? (ofInt Int64.maxValue.toInt) =
    some (((2 ^ 63 : ℤ) : ℚ) : WithBotTop ℚ) := by
  have hup : ofInt Int64.maxValue.toInt = ofInt (2 ^ 63) := by decide
  rw [hup]
  exact number?_ofInt_two_pow (k := 63) (by decide) (by decide)

/-- **Whether an integer has 64 bits can be asked of the double that equals it.**  The greatest
integer of 64 bits is rounded up to `2 ^ 63`, and so the double has to be less than that one. -/
theorem inRange_iff (h : number? x = some ((n : ℚ) : WithBotTop ℚ)) :
    ofInt Int64.minValue.toInt ≤ x ∧ x < ofInt Int64.maxValue.toInt ↔ InRange n := by
  rw [le_iff_of_number? number?_ofInt_minValue h, lt_iff_of_number? h number?_ofInt_maxValue,
    Int.cast_le, Int.cast_lt, InRange]

end Binary64

end DarjaLang
