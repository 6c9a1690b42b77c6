import DarjaLang.Proofs.Binary64.Canonical

/-!
# Rounding

To round a number is to shift its mantissa to the right until it has 53 bits, or until the least
exponent is reached, and then to go to the next mantissa or not.

* `Covers em e x` says what a shifted mantissa still knows of the number it stands for: which two
  mantissas the number lies between, and whether it has come half way to the next one.  Shifting
  keeps that (`Covers.shiftRight`).
* `roundWithAccuracy_eq`: going to the next mantissa may take one bit too many, and then there is
  one more shift.
* `IsRounded sign x u` says that `u` comes from `x` in that way, by whatever mantissa.
* `IsRounded.eq_finite`: a number that is a double is rounded to that double.
* `IsRounded.lt_of_pack_eq`: a number that is rounded to a double has no bit more in front of the
  last bit of the double than a mantissa has.
* `IsRounded.finiteUnlessLarge`: a number is rounded to infinity exactly if it is half way from the
  greatest double to `2 ^ 1024`, or beyond that.
-/

set_option autoImplicit false

namespace DarjaLang

open Float.Model (UnpackedFloat Format totalExponent)
open Float.Model.UnpackedFloat (ExtendedMantissa Accuracy)

namespace Binary64

variable {sign : UnpackedFloat.Sign} {m k : ℕ} {e : ℤ} {acc : Accuracy} {em : ExtendedMantissa}
  {x : ℚ}

/-! ## Shifting to the right -/

/-- The number lies between the mantissa and the next one, and the round bit tells whether it has
come half way. -/
structure Covers (em : ExtendedMantissa) (e : ℤ) (x : ℚ) : Prop where
  ge : em.mantissa * 2 ^ e ≤ x
  lt : x < (em.mantissa + 1) * 2 ^ e
  half : em.roundBit = true ↔ (em.mantissa + 1 / 2) * 2 ^ e ≤ x

/-- The bit that is dropped tells whether the number has come half way to the next even mantissa. -/
theorem Covers.shiftRightOne (h : Covers em e x) : Covers em.shiftRightOne (e + 1) x := by
  obtain ⟨hge, hlt, -⟩ := h
  have hpow : (2 : ℚ) ^ (e + 1) = 2 * 2 ^ e := by rw [zpow_add_one₀ two_ne_zero, mul_comm]
  have hpos : (0 : ℚ) < 2 ^ e := by positivity
  have hdiv : (em.mantissa : ℚ) = 2 * ↑(em.mantissa / 2) + ↑(em.mantissa % 2) := by
    exact_mod_cast (Nat.div_add_mod em.mantissa 2).symm
  rcases Nat.mod_two_eq_zero_or_one em.mantissa with hbit | hbit
  · rw [hdiv, hbit, Nat.cast_zero, add_zero] at hge hlt
    constructor
    · simp only [ExtendedMantissa.shiftRightOne, hpow]
      linarith
    · simp only [ExtendedMantissa.shiftRightOne, hpow]
      linarith
    · simp only [ExtendedMantissa.shiftRightOne, hbit, hpow, bne_self_eq_false, Bool.false_eq_true,
        false_iff, not_le]
      linarith
  · rw [hdiv, hbit, Nat.cast_one] at hge hlt
    constructor
    · simp only [ExtendedMantissa.shiftRightOne, hpow]
      linarith
    · simp only [ExtendedMantissa.shiftRightOne, hpow]
      linarith
    · simp only [ExtendedMantissa.shiftRightOne, hbit, hpow]
      refine iff_of_true rfl ?_
      linarith

theorem shiftRight_zero (em : ExtendedMantissa) : em >>> 0 = em := rfl

theorem shiftRight_succ (em : ExtendedMantissa) (k : ℕ) :
    em >>> (k + 1) = (em >>> k).shiftRightOne := rfl

theorem Covers.shiftRight (h : Covers em e x) (k : ℕ) : Covers (em >>> k) (e + k) x := by
  induction k with
  | zero => simpa [shiftRight_zero] using h
  | succ k ih =>
    rw [shiftRight_succ, Nat.cast_succ, ← add_assoc]
    exact ih.shiftRightOne

theorem mantissa_shiftRight (em : ExtendedMantissa) (k : ℕ) :
    (em >>> k).mantissa = em.mantissa / 2 ^ k := by
  induction k with
  | zero => rw [shiftRight_zero, pow_zero, Nat.div_one]
  | succ k ih =>
    rw [shiftRight_succ, ExtendedMantissa.shiftRightOne, ih, Nat.div_div_eq_div_mul, pow_succ]

/-! ## Going to the next mantissa -/

theorem le_roundedMantissa (em : ExtendedMantissa) : em.mantissa ≤ em.roundedMantissa := by
  obtain ⟨m, roundBit, stickyBit⟩ := em
  cases roundBit <;> cases stickyBit <;>
    simp [ExtendedMantissa.roundedMantissa, ExtendedMantissa.accuracy,
      Accuracy.roundToNearestEven]

theorem roundedMantissa_le (em : ExtendedMantissa) : em.roundedMantissa ≤ em.mantissa + 1 := by
  obtain ⟨m, roundBit, stickyBit⟩ := em
  cases roundBit <;> cases stickyBit <;>
    simp [ExtendedMantissa.roundedMantissa, ExtendedMantissa.accuracy,
      Accuracy.roundToNearestEven]
  omega

/-- From an odd mantissa the round bit alone decides. -/
theorem roundedMantissa_of_odd (h : em.mantissa % 2 = 1) :
    em.roundedMantissa = em.mantissa + em.roundBit.toNat := by
  obtain ⟨m, roundBit, stickyBit⟩ := em
  cases roundBit <;> cases stickyBit <;>
    simp_all [ExtendedMantissa.roundedMantissa, ExtendedMantissa.accuracy,
      Accuracy.roundToNearestEven]

/-- By how many bits a mantissa is too long. -/
def excess (m : ℕ) (e : ℤ) : ℕ := (max ((m.log2 : ℤ) + e - 52) (-1074) - e).toNat

theorem add_excess (m : ℕ) (e : ℤ) :
    e + excess m e = max e (max (m.log2 + e - 52) (-1074)) := by
  rw [excess]
  omega

/-- The mantissa without the bits that are too many, and with the next one in sight. -/
def shortened (m : ℕ) (e : ℤ) (acc : Accuracy) : ExtendedMantissa :=
  ExtendedMantissa.ofMantissaAndAccuracy m acc >>> excess m e

theorem shiftToTargetExponent_eq (m : ℕ) (e : ℤ) (acc : Accuracy) :
    UnpackedFloat.shiftToTargetExponent .binary64 m e acc =
      (shortened m e acc, e + excess m e) := by
  rw [UnpackedFloat.shiftToTargetExponent, targetExponent_eq]
  rfl

theorem mantissa_ofMantissaAndAccuracy (m : ℕ) (acc : Accuracy) :
    (ExtendedMantissa.ofMantissaAndAccuracy m acc).mantissa = m := by
  rcases acc with _ | _ | _ | _ <;> rfl

theorem mantissa_shortened (m : ℕ) (e : ℤ) (acc : Accuracy) :
    (shortened m e acc).mantissa = m / 2 ^ excess m e := by
  rw [shortened, mantissa_shiftRight, mantissa_ofMantissaAndAccuracy]

theorem mantissa_shortened_lt (m : ℕ) (e : ℤ) (acc : Accuracy) :
    (shortened m e acc).mantissa < 2 ^ 53 := by
  rw [mantissa_shortened, Nat.div_lt_iff_lt_mul (Nat.two_pow_pos _), ← Nat.pow_add]
  refine Nat.lt_log2_self.trans_le (Nat.pow_le_pow_right (by decide) ?_)
  rw [excess]
  omega

theorem excess_two_pow (h : -1074 ≤ e) : excess (2 ^ 53) e = 1 := by
  rw [excess, Nat.log2_two_pow]
  omega

/-- **A number is rounded in one go**, unless going to the next mantissa takes one bit too many. -/
theorem roundWithAccuracy_eq (sign : UnpackedFloat.Sign) (m : ℕ) (e : ℤ) (acc : Accuracy) :
    UnpackedFloat.roundWithAccuracy .binary64 sign m e acc =
      if h : (shortened m e acc).roundedMantissa = 0 then .zero sign
      else if (shortened m e acc).roundedMantissa = 2 ^ 53 then
        .finite sign (2 ^ 52) (e + excess m e + 1) (by decide)
      else .finite sign (shortened m e acc).roundedMantissa (e + excess m e)
        (Nat.pos_of_ne_zero h) := by
  have hge : -1074 ≤ e + excess m e := by
    rw [add_excess]
    omega
  have hle : (shortened m e acc).roundedMantissa ≤ 2 ^ 53 :=
    (roundedMantissa_le _).trans (mantissa_shortened_lt m e acc)
  rw [UnpackedFloat.roundWithAccuracy, shiftToTargetExponent_eq]
  dsimp only
  generalize (shortened m e acc).roundedMantissa = r at hle
  by_cases htop : r = 2 ^ 53
  · have hmantissa : (shortened (2 ^ 53) (e + excess m e) .exact).mantissa = 2 ^ 52 := by
      rw [mantissa_shortened, excess_two_pow hge]
      rfl
    subst htop
    rw [shiftToTargetExponent_eq]
    simp only [hmantissa, excess_two_pow hge]
    rfl
  · simp only [shiftToTargetExponent_of_lt (lt_of_le_of_ne hle htop) hge, if_neg htop]

/-! ## Numbers that are rounded -/

/-- The number is covered by a mantissa that has bits enough, and this is what it is rounded to. -/
def IsRounded (sign : UnpackedFloat.Sign) (x : ℚ) (u : UnpackedFloat) : Prop :=
  ∃ (m : ℕ) (e : ℤ) (acc : Accuracy), Covers (ExtendedMantissa.ofMantissaAndAccuracy m acc) e x ∧
    e ≤ max ((m.log2 : ℤ) + e - 52) (-1074) ∧
    u = UnpackedFloat.roundWithAccuracy .binary64 sign m e acc

theorem log2_mul_two_pow {m : ℕ} (hm : 0 < m) (k : ℕ) : (m * 2 ^ k).log2 = m.log2 + k := by
  have hpow : 0 < 2 ^ k := Nat.two_pow_pos k
  rw [Nat.log2_eq_iff (Nat.mul_pos hm hpow).ne', Nat.pow_add, Nat.add_right_comm, Nat.pow_add]
  exact ⟨Nat.mul_le_mul_right _ (Nat.log2_self_le hm.ne'),
    Nat.mul_lt_mul_of_pos_right Nat.lt_log2_self hpow⟩

theorem covers_exact (m : ℕ) (e : ℤ) :
    Covers (ExtendedMantissa.ofMantissaAndAccuracy m .exact) e (m * 2 ^ e) := by
  have hpos : (0 : ℚ) < 2 ^ e := by positivity
  refine ⟨le_rfl, mul_lt_mul_of_pos_right (lt_add_one _) hpos, iff_of_false Bool.false_ne_true ?_⟩
  rw [not_le]
  exact mul_lt_mul_of_pos_right (lt_add_of_pos_right _ one_half_pos) hpos

/-- A number that is too large for the least exponent is shortened to 53 bits. -/
theorem le_mantissa_shortened (he : e ≤ max ((m.log2 : ℤ) + e - 52) (-1074))
    (h : -1074 < e + excess m e) : 2 ^ 52 ≤ (shortened m e acc).mantissa := by
  have hexcess : 52 + excess m e = m.log2 := by
    rw [excess] at h ⊢
    omega
  have hm : m ≠ 0 := by
    rintro rfl
    simp at hexcess
  rw [mantissa_shortened, Nat.le_div_iff_mul_le (Nat.two_pow_pos _), ← Nat.pow_add, hexcess]
  exact Nat.log2_self_le hm

theorem roundedMantissa_of_roundBit (h : em.roundBit = false) :
    em.roundedMantissa = em.mantissa := by
  obtain ⟨m, roundBit, stickyBit⟩ := em
  obtain rfl : roundBit = false := h
  cases stickyBit <;>
    simp [ExtendedMantissa.roundedMantissa, ExtendedMantissa.accuracy,
      Accuracy.roundToNearestEven]

/-- **A number that is a double is rounded to that double.** -/
theorem IsRounded.eq_finite {u : UnpackedFloat} (pos : 0 < m) (hcanonical : IsCanonical m e)
    (h : IsRounded sign (m * 2 ^ e) u) : u = .finite sign m e pos := by
  obtain ⟨a, f, acc, hcovers, hf, rfl⟩ := h
  obtain ⟨hge, hlt, hhalf⟩ : Covers (shortened a f acc) (f + excess a f) (m * 2 ^ e) :=
    hcovers.shiftRight _
  have hshort := mantissa_shortened_lt a f acc
  have hleast : -1074 ≤ f + excess a f := by
    rw [add_excess]
    omega
  -- neither exponent is the greater one, because its mantissa would be full
  have hexponent : f + excess a f = e := by
    rcases lt_trichotomy (f + excess a f) e with hless | heq | hgreater
    · have hfull : 2 ^ 52 ≤ m := hcanonical.full_of_lt hleast hless
      exact absurd (next_magnitude_le hshort hfull hless) (not_le.2 hlt)
    · exact heq
    · have hfull : 2 ^ 52 ≤ (shortened a f acc).mantissa :=
        le_mantissa_shortened hf (hcanonical.ge.trans_lt hgreater)
      have hnext := (next_magnitude_le hcanonical.lt hfull hgreater).trans hge
      have hpos : (0 : ℚ) < 2 ^ e := by positivity
      linarith
  have hpos : (0 : ℚ) < 2 ^ e := by positivity
  rw [hexponent] at hge hlt hhalf
  have hmantissa : (shortened a f acc).mantissa = m := by
    have hle : (shortened a f acc).mantissa ≤ m := by
      exact_mod_cast (mul_le_mul_iff_left₀ hpos).1 hge
    have hlt' : m < (shortened a f acc).mantissa + 1 := by
      exact_mod_cast (mul_lt_mul_iff_left₀ hpos).1 hlt
    omega
  have hround : (shortened a f acc).roundedMantissa = m := by
    rw [roundedMantissa_of_roundBit, hmantissa]
    rw [Bool.eq_false_iff, ne_eq, hhalf, hmantissa, mul_le_mul_iff_left₀ hpos]
    linarith
  have htop : m ≠ 2 ^ 53 := hcanonical.lt.ne
  rw [roundWithAccuracy_eq]
  simp only [hround, hexponent, dif_neg pos.ne', if_neg htop]

/-! ## Infinity -/

/-- A mantissa with too large an exponent is stored as infinity. -/
theorem pack_eq_infinity (pos : 0 < m) (h : 971 < e) :
    pack (.finite sign m e pos) = pack (.infinity sign) := by
  have hbiased : (e + (1023 : ℕ) + (52 : ℕ)).toNat = (e + 1075).toNat := by omega
  have hpack : UnpackedFloat.pack .binary64 (.finite sign m e pos) =
      UnpackedFloat.pack .binary64 (.infinity sign) := by
    simp only [UnpackedFloat.pack, exponentBias_binary64, hbiased]
    rw [if_pos (by omega)]
  unfold pack Float.Model.pack
  congr 2
  exact congrArg UInt64.ofBitVec hpack

/-- Only one of the exponents that are stored is not that of a finite double. -/
theorem isFinite_unpack_packComponents {exponent : BitVec 11} (h : exponent ≠ -1#11)
    (mantissa : BitVec 52) : (UnpackedFloat.unpack .binary64
      (UnpackedFloat.packComponents .binary64 sign exponent mantissa)).isFinite = true := by
  rw [UnpackedFloat.unpack]
  simp only [UnpackedFloat.unpackExponent_packComponents, if_neg h]
  split_ifs <;> rfl

/-- A mantissa with an exponent that is not too large is stored as a finite double. -/
theorem isFinite_pack (pos : 0 < m) (h : e ≤ 971) :
    (pack (.finite sign m e pos)).isFinite = true := by
  have hbiased : (e + (1023 : ℕ) + (52 : ℕ)).toNat = (e + 1075).toNat := by omega
  show (unpack (pack (.finite sign m e pos))).isFinite = true
  rw [unpack_pack_eq]
  simp only [UnpackedFloat.pack, exponentBias_binary64, hbiased]
  rw [if_neg (by omega)]
  split_ifs
  · refine isFinite_unpack_packComponents (fun htop => ?_) _
    have htop := congrArg BitVec.toNat htop
    simp at htop
    omega
  · exact isFinite_unpack_packComponents (by decide) _

/-- What is not shortened too far is rounded to a finite double. -/
theorem isFinite_pack_roundWithAccuracy (h : e + excess m e ≤ 970 ∨
    e + excess m e = 971 ∧ (shortened m e acc).roundedMantissa < 2 ^ 53) :
    (pack (UnpackedFloat.roundWithAccuracy .binary64 sign m e acc)).isFinite = true := by
  rw [roundWithAccuracy_eq]
  split_ifs
  · cases sign <;> rfl
  · exact isFinite_pack _ (by omega)
  · exact isFinite_pack _ (by omega)

/-- What is shortened further is rounded to infinity. -/
theorem pack_roundWithAccuracy_eq_infinity (hne : (shortened m e acc).roundedMantissa ≠ 0)
    (h : 971 < e + excess m e ∨
      e + excess m e = 971 ∧ (shortened m e acc).roundedMantissa = 2 ^ 53) :
    pack (UnpackedFloat.roundWithAccuracy .binary64 sign m e acc) = pack (.infinity sign) := by
  rw [roundWithAccuracy_eq, dif_neg hne]
  split_ifs
  · exact pack_eq_infinity _ (by omega)
  · exact pack_eq_infinity _ (by omega)

/-- A full mantissa, or one at the least exponent, is stored with its exponent or as infinity. -/
theorem exponent_eq_of_pack_eq {t : UnpackedFloat.Sign} {n : ℕ} {f : ℤ} (pos : 0 < m)
    (hlt : m < 2 ^ 53) (hge : -1074 ≤ e) (hnormal : 2 ^ 52 ≤ m ∨ e = -1074) (pos' : 0 < n)
    (hcanonical : IsCanonical n f)
    (h : pack (.finite sign m e pos) = pack (.finite t n f pos')) : e = f := by
  have hunpack := congrArg unpack h
  rw [unpack_pack pos' hcanonical] at hunpack
  rcases le_or_gt e 971 with hle | hgt
  · rw [unpack_pack pos ⟨hlt, hge, hle, hnormal⟩] at hunpack
    exact (UnpackedFloat.finite.inj hunpack).2.2
  · rw [pack_eq_infinity pos hgt] at hunpack
    cases sign <;> cases hunpack

/-- A double has no smaller exponent than what was shortened and rounded to it. -/
theorem add_excess_le_of_pack_eq {t : UnpackedFloat.Sign} {n : ℕ} {f : ℤ} (pos : 0 < n)
    (hcanonical : IsCanonical n f) (he : e ≤ max ((m.log2 : ℤ) + e - 52) (-1074))
    (hu : pack (UnpackedFloat.roundWithAccuracy .binary64 sign m e acc) =
      pack (.finite t n f pos)) : e + excess m e ≤ f := by
  have hmantissa := mantissa_shortened_lt m e acc
  have hup := le_roundedMantissa (shortened m e acc)
  have hrounded := roundedMantissa_le (shortened m e acc)
  have hleast : -1074 ≤ e + excess m e := by
    rw [add_excess]
    omega
  rw [roundWithAccuracy_eq] at hu
  split_ifs at hu with hzero htop
  · have hunpack := congrArg unpack hu
    rw [unpack_pack pos hcanonical] at hunpack
    cases sign <;> cases hunpack
  · have := exponent_eq_of_pack_eq (by decide) (by decide) (by omega) (.inl le_rfl) pos
      hcanonical hu
    omega
  · have hnormal : 2 ^ 52 ≤ (shortened m e acc).roundedMantissa ∨ e + excess m e = -1074 := by
      rcases hleast.lt_or_eq with hgreater | hleast
      · exact .inl ((le_mantissa_shortened he hgreater).trans hup)
      · exact .inr hleast.symm
    exact (exponent_eq_of_pack_eq (Nat.pos_of_ne_zero hzero) (by omega) hleast hnormal pos
      hcanonical hu).le

/-- **A number that is rounded to a double has no more than 53 bits in front of the last bit of the
double.** -/
theorem IsRounded.lt_of_pack_eq {u : UnpackedFloat} {t : UnpackedFloat.Sign} {n : ℕ} {f : ℤ}
    (pos : 0 < n) (hcanonical : IsCanonical n f) (h : IsRounded sign x u)
    (hu : pack u = pack (.finite t n f pos)) : x < 2 ^ 53 * 2 ^ f := by
  obtain ⟨m, e, acc, hcovers, he, rfl⟩ := h
  obtain ⟨-, hlt, -⟩ : Covers (shortened m e acc) (e + excess m e) x := hcovers.shiftRight _
  have hexponent := add_excess_le_of_pack_eq pos hcanonical he hu
  have hcast : ((shortened m e acc).mantissa : ℚ) + 1 ≤ 2 ^ 53 := by
    exact_mod_cast mantissa_shortened_lt m e acc
  calc x < ((shortened m e acc).mantissa + 1) * 2 ^ (e + excess m e) := hlt
    _ ≤ 2 ^ 53 * 2 ^ f := by
      gcongr
      exact one_le_two

/-- Half way from the greatest double to `2 ^ 1024`. -/
def overflowBound : ℚ := 2 ^ 1024 - 2 ^ 970

theorem overflowBound_eq : overflowBound = (2 ^ 54 - 1) * 2 ^ (970 : ℤ) := by
  rw [overflowBound, sub_mul, one_mul, ← zpow_natCast 2 54, ← zpow_add₀ two_ne_zero,
    ← zpow_natCast, ← zpow_natCast]
  rfl

theorem two_zpow_971 : (2 : ℚ) ^ (971 : ℤ) = 2 * 2 ^ (970 : ℤ) := by
  rw [← zpow_one_add₀ two_ne_zero]
  rfl

/-- A number with fewer than 53 bits before `2 ^ 970` or 54 before `2 ^ 971` is below the bound. -/
theorem lt_overflowBound {n : ℕ} (hx : x < (n + 1) * 2 ^ e)
    (h : n + 1 ≤ 2 ^ 53 ∧ e ≤ 970 ∨ n + 2 ≤ 2 ^ 53 ∧ e = 971) : x < overflowBound := by
  have hpow : (0 : ℚ) < 2 ^ (970 : ℤ) := by positivity
  rw [overflowBound_eq]
  rcases h with ⟨hn, he⟩ | ⟨hn, rfl⟩
  · have hcast : (n : ℚ) + 1 ≤ 2 ^ 53 := by exact_mod_cast hn
    have hunit : (2 : ℚ) ^ e ≤ 2 ^ (970 : ℤ) := zpow_le_zpow_right₀ one_le_two he
    have hprod := mul_le_mul hcast hunit (by positivity) (by positivity)
    generalize (2 : ℚ) ^ (970 : ℤ) = unit at hpow hprod ⊢
    linarith
  · have hcast : (n : ℚ) + 2 ≤ 2 ^ 53 := by exact_mod_cast hn
    have hprod := mul_le_mul_of_nonneg_right hcast hpow.le
    rw [two_zpow_971] at hx
    generalize (2 : ℚ) ^ (970 : ℤ) = unit at hpow hprod hx ⊢
    linarith

/-- A number with 53 bits before `2 ^ 972` is not below the bound. -/
theorem overflowBound_le {n : ℕ} (hx : n * 2 ^ e ≤ x) (hn : 2 ^ 52 ≤ n) (he : 971 < e) :
    overflowBound ≤ x := by
  have hpow : (0 : ℚ) < 2 ^ (970 : ℤ) := by positivity
  have hcast : (2 : ℚ) ^ 52 ≤ n := by exact_mod_cast hn
  have hunit : (2 : ℚ) ^ (1 + 971 : ℤ) ≤ 2 ^ e := zpow_le_zpow_right₀ one_le_two (by omega)
  have hprod := mul_le_mul hcast hunit (by positivity) (by positivity)
  rw [zpow_one_add₀ two_ne_zero, two_zpow_971] at hprod
  rw [overflowBound_eq]
  generalize (2 : ℚ) ^ (970 : ℤ) = unit at hpow hprod ⊢
  linarith

/-- The double that a number is rounded to is finite, unless the number is half way from the
greatest double to `2 ^ 1024` or beyond that. -/
def FiniteUnlessLarge (sign : UnpackedFloat.Sign) (x : ℚ) (y : Float) : Prop :=
  x < overflowBound ∧ y.isFinite = true ∨ overflowBound ≤ x ∧ y = pack (.infinity sign)

/-- **A number is rounded to infinity exactly if it is half way from the greatest double to
`2 ^ 1024`, or beyond that.** -/
theorem IsRounded.finiteUnlessLarge {u : UnpackedFloat} (h : IsRounded sign x u) :
    FiniteUnlessLarge sign x (pack u) := by
  obtain ⟨m, e, acc, hcovers, he, rfl⟩ := h
  obtain ⟨hge, hlt, hhalf⟩ : Covers (shortened m e acc) (e + excess m e) x := hcovers.shiftRight _
  have hmantissa := mantissa_shortened_lt m e acc
  have hrounded := roundedMantissa_le (shortened m e acc)
  rcases lt_trichotomy (e + excess m e) 971 with htop | htop | htop
  · exact .inl ⟨lt_overflowBound hlt (.inl (by omega)),
      isFinite_pack_roundWithAccuracy (.inl (by omega))⟩
  · by_cases hlast : (shortened m e acc).mantissa + 1 = 2 ^ 53
    · -- the last mantissa is odd, and so the number is rounded up from half way on
      have hodd : (shortened m e acc).roundedMantissa =
          (shortened m e acc).mantissa + (shortened m e acc).roundBit.toNat :=
        roundedMantissa_of_odd (by omega)
      have hcast : ((shortened m e acc).mantissa : ℚ) = 2 ^ 53 - 1 := by
        rw [eq_sub_iff_add_eq]
        exact_mod_cast hlast
      have hbound : (2 ^ 53 - 1 + 1 / 2) * (2 : ℚ) ^ (971 : ℤ) = overflowBound := by
        rw [overflowBound_eq, two_zpow_971]
        ring
      rw [hcast, htop, hbound] at hhalf
      cases hbit : (shortened m e acc).roundBit with
      | true =>
        rw [hbit, Bool.toNat_true, hlast] at hodd
        exact .inr ⟨hhalf.1 hbit,
          pack_roundWithAccuracy_eq_infinity (by omega) (.inr ⟨htop, hodd⟩)⟩
      | false =>
        rw [hbit, Bool.toNat_false, Nat.add_zero] at hodd
        exact .inl ⟨not_le.1 (mt hhalf.2 (by simp [hbit])),
          isFinite_pack_roundWithAccuracy (.inr ⟨htop, by omega⟩)⟩
    · exact .inl ⟨lt_overflowBound hlt (.inr (by omega)),
        isFinite_pack_roundWithAccuracy (.inr ⟨htop, by omega⟩)⟩
  · have hfull : 2 ^ 52 ≤ (shortened m e acc).mantissa := le_mantissa_shortened he (by omega)
    have hup := le_roundedMantissa (shortened m e acc)
    exact .inr ⟨overflowBound_le hge hfull htop,
      pack_roundWithAccuracy_eq_infinity (by omega) (.inl htop)⟩

end Binary64

end DarjaLang
