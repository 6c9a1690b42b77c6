import DarjaLang.Binary64.Decimal
import DarjaLang.Proofs.Binary64.Finite
import DarjaLang.Proofs.Binary64.Integer
import DarjaLang.Proofs.Numeral
import DarjaLang.Proofs.Token.Rules

/-!
# Doubles that are read back

A whole number is written exactly, with one decimal place.  Any other double is written on the first
grid that has a neighbour reading back as the double.  There is such a grid, because a double is a
decimal fraction itself: it is on a grid with as many places as its mantissa has binary ones, and
what is on a grid is read exactly.  The search does not end before there are places behind the
point, because without any a decimal is an integer, and integers are read as whole doubles.

* `DecimalFraction` is what the text of a finite double looks like behind its sign.
* `toDouble_reading`: the search for a grid ends with a decimal that reads back.
* `one_le_places_reading`: it ends with decimal places, unless the double is a whole number.
* `exists_text_eq`: the text of a finite double is its sign and the digits of its absolute value.
* `ofText?_signed`: digits with a point between them are read as their number, with their sign.
-/

set_option autoImplicit false

namespace DarjaLang

open Float.Model (UnpackedFloat)

/-- A decimal fraction as it is written: digits, a point, and digits. -/
structure DecimalFraction where
  whole : List Char
  part : List Char
  whole_ne_nil : whole ≠ []
  part_ne_nil : part ≠ []
  isDigit_whole : ∀ c ∈ whole, c.isDigit = true
  isDigit_part : ∀ c ∈ part, c.isDigit = true

namespace DecimalFraction

/-- The text of a fraction. -/
def chars (f : DecimalFraction) : List Char := f.whole ++ '.' :: f.part

/-- The double nearest to a fraction. -/
def toDouble (f : DecimalFraction) : Float := Binary64.ofDigits f.whole f.part

theorem isDigit_or_eq_of_mem_chars {f : DecimalFraction} {c : Char} (h : c ∈ f.chars) :
    c.isDigit = true ∨ c = '.' := by
  rcases List.mem_append.1 h with hwhole | hbehind
  · exact .inl (f.isDigit_whole c hwhole)
  · rcases List.mem_cons.1 hbehind with rfl | hpart
    · exact .inr rfl
    · exact .inl (f.isDigit_part c hpart)

theorem exists_chars_eq_cons (f : DecimalFraction) :
    ∃ c cs, f.chars = c :: cs ∧ c.isDigit = true := by
  obtain ⟨c, cs, hwhole⟩ := List.exists_cons_of_ne_nil f.whole_ne_nil
  exact ⟨c, cs ++ '.' :: f.part, by rw [chars, hwhole]; rfl,
    f.isDigit_whole c (hwhole ▸ List.mem_cons_self)⟩

end DecimalFraction

namespace Binary64

open Numeral (value digits)

variable {x : Float} {num den places m : ℕ} {e : ℤ} {d : Decimal}

/-! ## Decimals that are exact -/

theorem fraction_den_pos (m : ℕ) (e : ℤ) : 0 < (fraction m e).2 := Nat.two_pow_pos _

/-- A double that is on a grid is read from there. -/
theorem toDouble_of_dvd (pos : 0 < m) (h : IsCanonical m e)
    (hdvd : (fraction m e).2 ∣ (fraction m e).1 * 10 ^ places) :
    Decimal.toDouble ⟨(fraction m e).1 * 10 ^ places / (fraction m e).2, places⟩ =
      pack (.finite .positive m e pos) := by
  have hden : ((fraction m e).2 : ℚ) ≠ 0 := Nat.cast_ne_zero.2 (fraction_den_pos m e).ne'
  refine ofDecimal_eq_of_isCanonical pos h ?_
  rw [Nat.cast_div hdvd hden, ← fraction_eq]
  push_cast
  field_simp

/-- What is on the grid is not rounded. -/
theorem rounded_of_dvd (hdvd : (fraction m e).2 ∣ (fraction m e).1 * 10 ^ places) :
    rounded m e places = ⟨(fraction m e).1 * 10 ^ places / (fraction m e).2, places⟩ := by
  have hmod : (fraction m e).1 * 10 ^ places % (fraction m e).2 = 0 := Nat.mod_eq_zero_of_dvd hdvd
  have hlt : compare (2 * 0) (fraction m e).2 = .lt :=
    compare_lt_iff_lt.2 (fraction_den_pos m e)
  simp only [rounded, Nat.pow_eq, hmod, hlt]

/-- A double is on every grid that has as many places as its mantissa has binary ones. -/
theorem den_dvd_mul_pow (m : ℕ) (e : ℤ) {places : ℕ} (h : (-e).toNat ≤ places) :
    (fraction m e).2 ∣ (fraction m e).1 * 10 ^ places :=
  ((Nat.pow_dvd_pow 2 h).trans (pow_dvd_pow_of_dvd (by decide) places)).mul_left _

/-! ## The search for a grid -/

theorem toDouble_of_neighbour? {grid : Grid} (h : neighbour? x num den grid = some d) :
    d.toDouble = x := by
  simp only [neighbour?, Decimal.readsAs, beq_eq_decide, Float.toBits_inj] at h
  split at h <;> simp only [decide_eq_true_eq, decide_eq_false_iff_not] at *
  · split_ifs at h <;> cases h <;> assumption
  · cases h
    assumption
  · cases h
    assumption
  · cases h

/-- A double that is on the grid itself has a neighbour there. -/
theorem isSome_neighbour? (hread : Decimal.toDouble ⟨num * 10 ^ places / den, places⟩ = x) :
    (neighbour? x num den (.places places)).isSome = true := by
  have hbelow :
      ((Grid.places places).decimal (num * Nat.pow 10 places / den)).readsAs x = true := by
    rw [Grid.decimal, Decimal.readsAs, Nat.pow_eq, hread]
    exact beq_self_eq_true _
  simp only [neighbour?, Grid.scale, hbelow]
  split <;> simp_all

/-- **The search ends with a decimal that reads back**: on the last grid there is one. -/
theorem toDouble_reading (pos : 0 < m) (h : IsCanonical m e) :
    (reading m e pos).toDouble = pack (.finite .positive m e pos) := by
  have hlast : (neighbour? (pack (.finite .positive m e pos)) (fraction m e).1 (fraction m e).2
      (.places (-e).toNat)).isSome = true :=
    isSome_neighbour? (toDouble_of_dvd pos h (den_dvd_mul_pow m e le_rfl))
  have hfound : ((grids (digits ((fraction m e).1 / (fraction m e).2)).length
      (-e).toNat).findSome? (neighbour? (pack (.finite .positive m e pos)) (fraction m e).1
        (fraction m e).2)).isSome = true := by
    refine List.findSome?_isSome_iff.2 ⟨_, ?_, hlast⟩
    simp [grids]
  obtain ⟨d, hd⟩ := Option.isSome_iff_exists.1 hfound
  obtain ⟨grid, -, hneighbour⟩ := List.exists_of_findSome?_eq_some hd
  simp only [reading, hd, Option.getD_some]
  exact toDouble_of_neighbour? hneighbour

/-! ## Decimals without a point -/

/-- An integer that is read as a double with a negative exponent has no more than 53 bits, and it is
not zero. -/
theorem lt_of_ofDecimal_eq {k : ℕ} (pos : 0 < m) (h : IsCanonical m e) (he : e < 0)
    (hread : ofDecimal k (-(0 : ℕ)) = pack (.finite .positive m e pos)) : 0 < k ∧ k < 2 ^ 53 := by
  have hzero : ofDecimal k (-(0 : ℕ)) ≠ pack (.zero .positive) := by
    intro h0
    have hunpack := congrArg unpack (hread.symm.trans h0)
    rw [unpack_pack pos h] at hunpack
    cases hunpack
  obtain ⟨-, h0⟩ | ⟨u, hu, h0⟩ := ofDecimal_cases k 0
  · exact absurd h0 hzero
  constructor
  · rcases Nat.eq_zero_or_pos k with rfl | hk
    · exact absurd (by rw [ofDecimal, UnpackedFloat.ofScientific, dif_pos rfl]) hzero
    · exact hk
  · have hbound := hu.lt_of_pack_eq pos h (h0.symm.trans hread)
    rw [pow_zero, div_one] at hbound
    have hlt : (k : ℚ) < 2 ^ 53 := calc
      (k : ℚ) < 2 ^ 53 * 2 ^ e := hbound
      _ ≤ 2 ^ 53 * 1 := by
        gcongr
        exact zpow_le_one_of_nonpos₀ one_le_two he.le
      _ = 2 ^ 53 := mul_one _
    exact_mod_cast hlt

/-- An integer is read as a whole number.  If it has more than 53 bits, then the double that it is
rounded to has no bit behind the point, and if not, it is read exactly. -/
theorem dvd_of_ofDecimal_eq {k : ℕ} (pos : 0 < m) (h : IsCanonical m e)
    (hread : ofDecimal k (-(0 : ℕ)) = pack (.finite .positive m e pos)) :
    (fraction m e).2 ∣ (fraction m e).1 := by
  rcases le_or_gt 0 e with he | he
  · simp [fraction, he]
  · obtain ⟨hk, hlt⟩ := lt_of_ofDecimal_eq pos h he hread
    obtain ⟨j, hpos, hcanonical, -⟩ := exists_round_eq .positive hk (e := 0) hlt (by decide)
      (by decide)
    have hexact := ofDecimal_eq_of_isCanonical (n := 0) (k := k) hpos hcanonical
      (by rw [natCast_mul_two_zpow, pow_zero, div_one, zpow_zero, mul_one])
    have hunpack := congrArg unpack (hread.symm.trans hexact)
    rw [unpack_pack pos h, unpack_pack hpos hcanonical] at hunpack
    obtain ⟨-, rfl, rfl⟩ := UnpackedFloat.finite.inj hunpack
    simp [fraction]

/-- **The shortest decimal of a double that is no whole number has places behind the point.** -/
theorem one_le_places_reading (pos : 0 < m) (h : IsCanonical m e)
    (hwhole : ¬(fraction m e).2 ∣ (fraction m e).1) : 1 ≤ (reading m e pos).places := by
  refine Nat.one_le_iff_ne_zero.2 fun hplaces => hwhole ?_
  have hread := toDouble_reading pos h
  rw [Decimal.toDouble, hplaces] at hread
  exact dvd_of_ofDecimal_eq pos h hread

/-! ## Digits around a point -/

/-- The digits behind the point are as many as there are places. -/
theorem length_part (h : 1 ≤ d.places) :
    ((digits (d.unscaled % 10 ^ d.places)).leftpad d.places '0').length = d.places := by
  rw [List.length_leftpad, max_eq_left]
  exact (Nat.length_toDigits_le_iff (by decide) h).2 (Nat.mod_lt _ (Nat.pow_pos (by decide)))

/-- A decimal with places, as it is written. -/
def Decimal.fraction (d : Decimal) (h : 1 ≤ d.places) : DecimalFraction where
  whole := digits (d.unscaled / 10 ^ d.places)
  part := (digits (d.unscaled % 10 ^ d.places)).leftpad d.places '0'
  whole_ne_nil := Numeral.digits_ne_nil _
  part_ne_nil := List.ne_nil_of_length_pos (by rwa [length_part h])
  isDigit_whole _ := Numeral.isDigit_of_mem_digits
  isDigit_part c hc := by
    rcases List.mem_append.1 hc with hzero | hdigit
    · rw [List.eq_of_mem_replicate hzero]
      rfl
    · exact Numeral.isDigit_of_mem_digits hdigit

theorem chars_fraction (h : 1 ≤ d.places) : (d.fraction h).chars = d.text := by
  rw [Decimal.text, if_neg (Nat.one_le_iff_ne_zero.1 h)]
  rfl

/-- The digits are read as the number that they were made of. -/
theorem toDouble_fraction (h : 1 ≤ d.places) : (d.fraction h).toDouble = d.toDouble := by
  have hvalue : value ((d.fraction h).whole ++ (d.fraction h).part) = d.unscaled := by
    rw [Numeral.value_append]
    simp only [Decimal.fraction, length_part h, Numeral.value_leftpad, Numeral.value_digits]
    rw [Nat.mul_comm, Nat.div_add_mod]
  rw [DecimalFraction.toDouble, ofDigits, hvalue, Decimal.fraction, length_part h,
    Decimal.toDouble]

/-! ## Signs -/

/-- A text with a minus sign in front of it, or without. -/
def signed (negative : Bool) (cs : List Char) : List Char :=
  if negative then '-' :: cs else cs

theorem pack_unpack (x : Float) : pack (unpack x) = x :=
  Float.toBits_inj.1 (UInt64.toBitVec_inj.1
    (UnpackedFloat.pack_unpack_of_valid x.toModel.valid))

/-- Zero as it is written. -/
def zeroFraction : DecimalFraction :=
  ⟨['0'], ['0'], by decide, by decide, List.all_eq_true.1 rfl, List.all_eq_true.1 rfl⟩

theorem toDouble_zeroFraction : zeroFraction.toDouble = pack (.zero .positive) := by
  show ofDecimal 0 (-(1 : ℕ)) = _
  rw [ofDecimal, UnpackedFloat.ofScientific, dif_pos rfl]

/-- A positive whole number has one decimal place, and it is written exactly. -/
theorem toDouble_rounded_of_dvd (pos : 0 < m) (h : IsCanonical m e)
    (hdvd : (fraction m e).2 ∣ (fraction m e).1) :
    (rounded m e 1).toDouble = pack (.finite .positive m e pos) ∧ (rounded m e 1).places = 1 := by
  have hdvd' : (fraction m e).2 ∣ (fraction m e).1 * 10 ^ 1 := hdvd.mul_right _
  rw [rounded_of_dvd hdvd']
  exact ⟨toDouble_of_dvd pos h hdvd', rfl⟩

/-- **Either way of writing a finite double has a point, and reads back.** -/
theorem exists_decimal {sign : UnpackedFloat.Sign} {pos : 0 < m}
    (hx : unpack x = .finite sign m e pos) :
    ∃ d : Decimal, 1 ≤ d.places ∧ d.toDouble = pack (.finite .positive m e pos) ∧
      text x = signText sign ++ String.ofList d.text := by
  have hcanonical := isCanonical_of_unpack hx
  have hfinite : x.isFinite = true := by
    show (unpack x).isFinite = true
    rw [hx, UnpackedFloat.isFinite]
  have hwhole := fract_beq_zero_iff_dvd hx
  rw [text, hfinite, Bool.true_and]
  split_ifs with hfract
  · obtain ⟨hread, hplaces⟩ := toDouble_rounded_of_dvd pos hcanonical (hwhole.1 hfract)
    exact ⟨rounded m e 1, hplaces.ge, hread, by rw [fixed, render, hx]⟩
  · exact ⟨reading m e pos, one_le_places_reading pos hcanonical (mt hwhole.2 hfract),
      toDouble_reading pos hcanonical, by rw [shortest, render, hx]⟩

/-- **The text of a finite double is its sign and the digits of its absolute value**, which read
back. -/
theorem exists_text_eq (h : x.isFinite = true) :
    ∃ (negative : Bool) (f : DecimalFraction), (text x).toList = signed negative f.chars ∧
      f.toDouble = x.abs ∧ x = if negative then -x.abs else x.abs := by
  obtain ⟨sign, hx⟩ | ⟨sign, m, e, pos, hx⟩ := unpack_of_isFinite h
  · obtain rfl : x = pack (.zero sign) := by rw [← hx, pack_unpack]
    cases sign with
    | positive => exact ⟨false, zeroFraction, rfl, toDouble_zeroFraction, rfl⟩
    | negative => exact ⟨true, zeroFraction, rfl, toDouble_zeroFraction, rfl⟩
  · have hcanonical := isCanonical_of_unpack hx
    obtain ⟨d, hplaces, hread, htext⟩ := exists_decimal hx
    have habs : x.abs = pack (.finite .positive m e pos) := by
      show pack (unpack x).abs = _
      rw [hx, UnpackedFloat.abs]
    have hchars : (text x).toList = (signText sign).toList ++ (d.fraction hplaces).chars := by
      rw [htext, String.toList_append, String.toList_ofList, chars_fraction]
    have hdouble : (d.fraction hplaces).toDouble = x.abs := by
      rw [toDouble_fraction, hread, habs]
    cases sign with
    | positive => exact ⟨false, _, hchars, hdouble, by rw [habs, ← pack_unpack x, hx]; rfl⟩
    | negative =>
      have hneg : -x.abs = x := by
        show pack (unpack x.abs).neg = x
        rw [habs, unpack_pack pos hcanonical, ← pack_unpack x, hx]
        rfl
      exact ⟨true, _, hchars, hdouble, hneg.symm⟩

/-! ## Reading -/

/-- A number with a point is none of the words for what has no digits. -/
theorem unsigned?_chars (f : DecimalFraction) : unsigned? f.chars = some f.toDouble := by
  have hword : ∀ word : String, '.' ∉ word.toList →
      String.ofList (f.chars.map Char.toLower) ≠ word := by
    rintro _ hpoint rfl
    rw [String.toList_ofList] at hpoint
    exact hpoint (List.mem_map.2 ⟨'.', by simp [DecimalFraction.chars], rfl⟩)
  have hwhole : f.chars.span Char.isDigit = (f.whole, '.' :: f.part) := by
    have hpoint : Char.isDigit '.' = false := rfl
    rw [List.span_eq_takeWhile_dropWhile, DecimalFraction.chars,
      Token.takeWhile_append_stop f.isDigit_whole hpoint,
      Token.dropWhile_append_stop f.isDigit_whole hpoint]
  have hpart : f.part.span Char.isDigit = (f.part, []) := by
    rw [List.span_eq_takeWhile_dropWhile, List.takeWhile_eq_self_iff.2 f.isDigit_part,
      List.dropWhile_eq_nil_iff.2 f.isDigit_part]
  rw [unsigned?]
  split
  · exact absurd ‹_› (hword _ (by decide))
  · exact absurd ‹_› (hword _ (by decide))
  · exact absurd ‹_› (hword _ (by decide))
  · have hnumber : f.whole.isEmpty = false := List.isEmpty_eq_false_iff.2 f.whole_ne_nil
    simp only [hwhole, hpart, hnumber, Bool.false_and, Bool.false_eq_true, if_false, exponent?,
      Option.map_some, Int.zero_sub, DecimalFraction.toDouble, ofDigits]

/-- **Digits with a point between them are read with their sign.** -/
theorem ofText?_signed (negative : Bool) (f : DecimalFraction) :
    ofText? (signed negative f.chars) =
      some (if negative then -f.toDouble else f.toDouble) := by
  cases negative with
  | true =>
    rw [signed, if_pos rfl, ofText?, unsigned?_chars]
    rfl
  | false =>
    obtain ⟨c, cs, hchars, hc⟩ := f.exists_chars_eq_cons
    rw [signed, if_neg Bool.false_ne_true, if_neg Bool.false_ne_true, ← unsigned?_chars, hchars]
    -- no digit is a sign
    rw [ofText?]
    · rintro _ ⟨rfl⟩
      cases hc
    · rintro _ ⟨rfl⟩
      cases hc

end Binary64

end DarjaLang
