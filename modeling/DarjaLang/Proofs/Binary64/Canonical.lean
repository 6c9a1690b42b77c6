import DarjaLang.Binary64.Basic
import Mathlib

/-!
# Mantissas and exponents of doubles

A finite double has one mantissa and one exponent: the mantissa is a number of exactly 53 bits, or
of fewer bits if the exponent is the least one.

* `Binary64.IsCanonical` says so.  Every finite double is canonical (`isCanonical_of_unpack`), and
  whatever is canonical is a finite double (`unpack_pack`).
* `exists_round_eq`: a number that has no more than 53 bits is not rounded.  Its mantissa is only
  shifted to the left until it is canonical.
-/

set_option autoImplicit false

namespace DarjaLang

open Float.Model (UnpackedFloat Format totalExponent)

namespace Binary64

variable {sign : UnpackedFloat.Sign} {m : ℕ} {e : ℤ}

/-- The mantissa has its full 53 bits, or the exponent is the least one. -/
structure IsCanonical (m : ℕ) (e : ℤ) : Prop where
  lt : m < 2 ^ 53
  ge : -1074 ≤ e
  le : e ≤ 971
  normal : 2 ^ 52 ≤ m ∨ e = -1074

/-! ## Magnitudes -/

/-- A full mantissa with a greater exponent is not below the mantissa that comes next to another
one. -/
theorem next_magnitude_le {n : ℕ} {f : ℤ} (hm : m + 1 ≤ 2 ^ 53) (hn : 2 ^ 52 ≤ n) (he : e < f) :
    ((m : ℚ) + 1) * 2 ^ e ≤ n * 2 ^ f := by
  have hcast : (m : ℚ) + 1 ≤ 2 ^ 53 := by exact_mod_cast hm
  have hfull : (2 : ℚ) ^ 52 ≤ n := by exact_mod_cast hn
  calc ((m : ℚ) + 1) * 2 ^ e ≤ 2 ^ 53 * 2 ^ e := by gcongr
    _ = 2 ^ 52 * 2 ^ (e + 1) := by
        rw [zpow_add_one₀ two_ne_zero]
        ring
    _ ≤ n * 2 ^ f := by
        gcongr
        · norm_num
        · exact he

/-- Only the least exponent goes with short mantissas, so a greater exponent makes the number
greater. -/
theorem IsCanonical.full_of_lt {f : ℤ} (h : IsCanonical m e) (hf : -1074 ≤ f) (he : f < e) :
    2 ^ 52 ≤ m :=
  h.normal.resolve_right (by omega)

/-! ## The bits of a double -/

theorem exponentBias_binary64 : Format.exponentBias .binary64 = 1023 := rfl

/-- The first bit of a mantissa of 53 bits is not stored. -/
theorem toNat_append_one (v : BitVec 52) : (1#1 ++ v).toNat = 2 ^ 52 + v.toNat := by
  rw [BitVec.toNat_append, ← Nat.shiftLeft_add_eq_or_of_lt v.isLt]
  simp [Nat.shiftLeft_eq]

theorem isCanonical_of_unpack {x : Float} {pos : 0 < m} (h : unpack x = .finite sign m e pos) :
    IsCanonical m e := by
  have hm : (@UnpackedFloat.unpackMantissa .binary64 x.toModel.toBits.toBitVec).toNat < 2 ^ 52 :=
    BitVec.isLt _
  have he : (@UnpackedFloat.unpackExponent .binary64 x.toModel.toBits.toBitVec).toNat < 2 ^ 11 :=
    BitVec.isLt _
  rw [unpack, Float.Model.unpack, UnpackedFloat.unpack, exponentBias_binary64] at h
  dsimp only at h
  split_ifs at h with htop _ hbottom
  · cases h
    exact ⟨by omega, by simp [hbottom], by simp [hbottom], .inr (by simp [hbottom])⟩
  · cases h
    rw [toNat_append_one]
    simp only [BitVec.toNat_eq, BitVec.reduceNeg, BitVec.toNat_ofNat, Nat.reducePow,
      Nat.reduceMod] at htop hbottom
    exact ⟨by omega, by omega, by omega, .inl (by omega)⟩

theorem unpack_pack_eq (u : UnpackedFloat) : unpack (pack u) =
    UnpackedFloat.unpack .binary64 (UnpackedFloat.pack .binary64 u) := rfl

/-- A canonical mantissa and exponent are stored as they are. -/
theorem unpack_pack (pos : 0 < m) (h : IsCanonical m e) :
    unpack (pack (.finite sign m e pos)) = .finite sign m e pos := by
  obtain ⟨hlt, hge, hle, hnormal⟩ := h
  have hbiased : (e + (1023 : ℕ) + (52 : ℕ)).toNat = (e + 1075).toNat := by omega
  have hmax : ¬2 ^ 11 ≤ (e + 1075).toNat + 1 := by omega
  rw [unpack_pack_eq, UnpackedFloat.pack]
  simp only [exponentBias_binary64, hbiased, if_neg hmax, Format.mantissaBits]
  by_cases hfull : 2 ^ 52 ≤ m
  · have hlog : m.log2 = 52 := (Nat.log2_eq_iff pos.ne').2 ⟨hfull, hlt⟩
    rw [hlog, if_pos rfl, UnpackedFloat.unpack]
    simp only [UnpackedFloat.unpackExponent_packComponents,
      UnpackedFloat.unpackMantissa_packComponents, UnpackedFloat.unpackSign_packComponents,
      UnpackedFloat.Sign.ofBitVec_toBitVec, exponentBias_binary64, toNat_append_one]
    -- the stored exponent is neither that of infinity nor that of the numbers next to zero
    rw [if_neg (by simp [BitVec.toNat_eq]; omega), if_neg (by simp [BitVec.toNat_eq]; omega)]
    simp
    omega
  · obtain rfl := hnormal.resolve_left hfull
    have hlog : m.log2 < 52 := (Nat.log2_lt pos.ne').2 (by omega)
    rw [if_neg (by omega), UnpackedFloat.unpack]
    simp only [UnpackedFloat.unpackExponent_packComponents,
      UnpackedFloat.unpackMantissa_packComponents, UnpackedFloat.unpackSign_packComponents,
      UnpackedFloat.Sign.ofBitVec_toBitVec, exponentBias_binary64]
    rw [if_neg (by decide), if_pos trivial, dif_neg (by simp [BitVec.toNat_eq]; omega)]
    simp
    omega

/-! ## Rounding -/

theorem targetExponent_eq (m : ℕ) (e : ℤ) :
    Format.binary64.targetExponent (totalExponent m e) = max (m.log2 + e - 52) (-1074) := by
  simp only [Format.targetExponent, totalExponent, Format.mantissaBits, Format.minExponent]
  norm_num
  omega

/-- A mantissa that has no more than 53 bits is not shifted to the right. -/
theorem shiftToTargetExponent_of_lt (hm : m < 2 ^ 53) (he : -1074 ≤ e) :
    UnpackedFloat.shiftToTargetExponent .binary64 m e .exact = (⟨m, false, false⟩, e) := by
  have hlog : m.log2 ≤ 52 := by
    rcases Nat.eq_zero_or_pos m with rfl | hpos
    · simp
    · exact Nat.le_of_lt_succ ((Nat.log2_lt hpos.ne').2 hm)
  have hshift : (max ((m.log2 : ℤ) + e - 52) (-1074) - e).toNat = 0 := by omega
  rw [UnpackedFloat.shiftToTargetExponent, targetExponent_eq, UnpackedFloat.shiftToExponent,
    hshift]
  simp [HShiftRight.hShiftRight, Nat.repeat, UnpackedFloat.ExtendedMantissa.ofMantissaAndAccuracy]

theorem roundWithAccuracy_of_lt (sign : UnpackedFloat.Sign) (pos : 0 < m) (hm : m < 2 ^ 53)
    (he : -1074 ≤ e) :
    UnpackedFloat.roundWithAccuracy .binary64 sign m e .exact = .finite sign m e pos := by
  rw [UnpackedFloat.roundWithAccuracy, shiftToTargetExponent_of_lt hm he]
  simp only [UnpackedFloat.ExtendedMantissa.roundedMantissa,
    UnpackedFloat.ExtendedMantissa.accuracy, UnpackedFloat.Accuracy.roundToNearestEven,
    shiftToTargetExponent_of_lt hm he, dif_neg pos.ne']

/-- **A number that has no more than 53 bits is not rounded**, but only made canonical. -/
theorem exists_round_eq (sign : UnpackedFloat.Sign) (pos : 0 < m) (hm : m < 2 ^ 53)
    (hge : -1074 ≤ e) (hle : e ≤ 971) :
    ∃ k : ℕ, ∃ pos : 0 < m * 2 ^ k, IsCanonical (m * 2 ^ k) (e - k) ∧
      UnpackedFloat.round .binary64 sign m e = .finite sign (m * 2 ^ k) (e - k) pos := by
  have hlog : m.log2 < 53 := (Nat.log2_lt pos.ne').2 hm
  obtain ⟨k, hk⟩ : ∃ k : ℕ, (e - max ((m.log2 : ℤ) + e - 52) (-1074)).toNat = k := ⟨_, rfl⟩
  have hpos : 0 < m * 2 ^ k := Nat.mul_pos pos (Nat.two_pow_pos k)
  have hlt : m * 2 ^ k < 2 ^ 53 := by
    calc m * 2 ^ k < 2 ^ (m.log2 + 1) * 2 ^ k :=
          Nat.mul_lt_mul_of_pos_right Nat.lt_log2_self (Nat.two_pow_pos k)
      _ = 2 ^ (m.log2 + 1 + k) := (Nat.pow_add 2 _ k).symm
      _ ≤ 2 ^ 53 := Nat.pow_le_pow_right (by decide) (by omega)
  have hnormal : 2 ^ 52 ≤ m * 2 ^ k ∨ e - k = -1074 := by
    rcases le_or_gt ((m.log2 : ℤ) + e - 52) (-1074) with h | h
    · exact .inr (by omega)
    · refine .inl ?_
      calc 2 ^ 52 = 2 ^ m.log2 * 2 ^ k := by rw [← Nat.pow_add]; congr 1; omega
        _ ≤ m * 2 ^ k := Nat.mul_le_mul_right _ (Nat.log2_self_le pos.ne')
  refine ⟨k, hpos, ⟨hlt, by omega, by omega, hnormal⟩, ?_⟩
  rw [UnpackedFloat.round, targetExponent_eq, UnpackedFloat.decreaseExponent, hk,
    Nat.shiftLeft_eq]
  exact roundWithAccuracy_of_lt sign hpos hlt (by omega)

end Binary64

end DarjaLang
