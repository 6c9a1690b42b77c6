import DarjaLang.Proofs.Binary64.Canonical
import DarjaLang.Value.Operation

/-!
# The numbers that doubles stand for

Every double but NaN stands for a rational number or for one of the two infinities.

* `Binary64.number?` is that number.
* `order?_eq`: doubles are ordered like their numbers.  Signs, exponents and mantissas are compared
  one after the other, and that is enough because both sides are canonical.
* `lt_iff_of_number?`, `le_iff_of_number?` and `beq_iff_of_number?` say so of finite ones.
-/

set_option autoImplicit false

namespace DarjaLang

open Float.Model (UnpackedFloat Format)

namespace Binary64

variable {s t : UnpackedFloat.Sign} {m m' : ℕ} {e e' : ℤ}

/-! ## Signs, mantissas and exponents -/

/-- The number with a sign, a mantissa and an exponent. -/
def rational (sign : UnpackedFloat.Sign) (m : ℕ) (e : ℤ) : ℚ :=
  match sign with
  | .positive => m * 2 ^ e
  | .negative => -(m * 2 ^ e)

theorem rational_positive_pos (pos : 0 < m) (e : ℤ) : 0 < rational .positive m e := by
  rw [rational]
  positivity

theorem rational_negative_neg (pos : 0 < m) (e : ℤ) : rational .negative m e < 0 := by
  rw [rational, neg_lt_zero]
  positivity

/-- A mantissa that is shifted to the left takes a smaller exponent. -/
theorem rational_shift (sign : UnpackedFloat.Sign) (m k : ℕ) (e : ℤ) :
    rational sign (m * 2 ^ k) (e - k) = rational sign m e := by
  have hshift : ((m * 2 ^ k : ℕ) : ℚ) * 2 ^ (e - k) = m * 2 ^ e := by
    rw [zpow_sub₀ two_ne_zero, zpow_natCast]
    push_cast
    field_simp
  cases sign <;> simp only [rational, hshift]

/-- A greater exponent makes a greater number. -/
theorem magnitude_lt_of_exponent_lt (h : IsCanonical m e) (h' : IsCanonical m' e') (he : e < e') :
    (m : ℚ) * 2 ^ e < m' * 2 ^ e' := by
  calc (m : ℚ) * 2 ^ e < (m + 1) * 2 ^ e := by
        gcongr
        exact lt_add_one _
    _ ≤ m' * 2 ^ e' := next_magnitude_le h.lt (h'.full_of_lt h.ge he) he

theorem cmp_magnitude (h : IsCanonical m e) (h' : IsCanonical m' e') :
    cmp ((m : ℚ) * 2 ^ e) (m' * 2 ^ e') = (compare e e').then (compare m m') := by
  rcases lt_trichotomy e e' with he | rfl | he
  · rw [compare_lt_iff_lt.2 he, (cmp_eq_lt_iff _ _).2 (magnitude_lt_of_exponent_lt h h' he)]
    rfl
  · have hmono : StrictMono fun n : ℕ => (n : ℚ) * 2 ^ e := fun a b hab => by
      dsimp only
      gcongr
    rw [compare_eq_iff_eq.2 rfl, hmono.cmp_map_eq, cmp_eq_compare]
    rfl
  · rw [compare_gt_iff_gt.2 he, (cmp_eq_gt_iff _ _).2 (magnitude_lt_of_exponent_lt h' h he)]
    rfl

theorem compare_finite (pos : 0 < m) (pos' : 0 < m') (h : IsCanonical m e)
    (h' : IsCanonical m' e') :
    (UnpackedFloat.finite s m e pos).compare (.finite t m' e' pos') =
      some (cmp (rational s m e) (rational t m' e')) := by
  have hneg : StrictAnti fun q : ℚ => -q := fun _ _ => neg_lt_neg
  have hpos := rational_positive_pos pos e
  have hpos' := rational_positive_pos pos' e'
  cases s with
  | positive => cases t with
    | positive => exact congrArg some (cmp_magnitude h h').symm
    | negative => rw [(cmp_eq_gt_iff _ _).2 ((rational_negative_neg pos' e').trans hpos)]; rfl
  | negative => cases t with
    | positive => rw [(cmp_eq_lt_iff _ _).2 ((rational_negative_neg pos e).trans hpos')]; rfl
    | negative =>
      rw [rational, rational, hneg.cmp_map_eq, ← cmp_swap, cmp_magnitude h h']
      rfl

/-! ## Doubles -/

/-- The number that is written down by a sign, a mantissa and an exponent, or by the name of a
value that has none. -/
def numberOf? : UnpackedFloat → Option (WithBotTop ℚ)
  | .notANumber => none
  | .infinity .positive => some ⊤
  | .infinity .negative => some ⊥
  | .zero _ => some (0 : ℚ)
  | .finite sign m e _ => some (rational sign m e)

/-- The number that a double stands for.  NaN stands for none. -/
def number? (x : Float) : Option (WithBotTop ℚ) := numberOf? (unpack x)

theorem number?_eq_none_iff {x : Float} : number? x = none ↔ x.isNaN = true := by
  show _ ↔ (unpack x).isNaN = true
  rw [number?]
  rcases unpack x with (_ | _) | _ | _ | _ <;> simp [numberOf?, UnpackedFloat.isNaN]

/-- A double is finite if it stands for a rational number. -/
theorem isFinite_iff {x : Float} :
    x.isFinite = true ↔ ∃ q : ℚ, number? x = some (q : WithBotTop ℚ) := by
  show (unpack x).isFinite = true ↔ _
  rw [number?]
  cases unpack x with
  | notANumber => simp [numberOf?, UnpackedFloat.isFinite]
  | infinity sign =>
    cases sign with
    | positive =>
      simpa [numberOf?, UnpackedFloat.isFinite] using fun q => (WithBotTop.coe_ne_top q).symm
    | negative =>
      simpa [numberOf?, UnpackedFloat.isFinite] using fun q => (WithBotTop.coe_ne_bot q).symm
  | zero sign => simp [numberOf?, UnpackedFloat.isFinite]
  | finite sign m e pos => simp [numberOf?, UnpackedFloat.isFinite]

/-- Whatever is not finite is NaN or an infinity. -/
theorem isFinite_eq_false_iff {x : Float} :
    x.isFinite = false ↔ x.isNaN = true ∨ x.isInf = true := by
  show (unpack x).isFinite = false ↔ (unpack x).isNaN = true ∨ (unpack x).isInf = true
  cases unpack x <;>
    simp [UnpackedFloat.isFinite, UnpackedFloat.isNaN, UnpackedFloat.isInf]

/-- A double that stands for a rational number is zero or has a mantissa. -/
theorem unpack_of_number? {x : Float} {q : ℚ} (h : number? x = some (q : WithBotTop ℚ)) :
    (∃ sign, unpack x = .zero sign ∧ q = 0) ∨
      ∃ sign m e pos, unpack x = .finite sign m e pos ∧ q = rational sign m e := by
  rw [number?] at h
  cases hx : unpack x with
  | notANumber => simp [hx, numberOf?] at h
  | infinity sign =>
    rw [hx] at h
    cases sign with
    | positive => exact absurd (Option.some.inj h).symm (WithBotTop.coe_ne_top q)
    | negative => exact absurd (Option.some.inj h).symm (WithBotTop.coe_ne_bot q)
  | zero sign =>
    rw [hx, numberOf?, Option.some_inj, WithBotTop.coe_injective.eq_iff] at h
    exact .inl ⟨sign, rfl, h.symm⟩
  | finite sign m e pos =>
    rw [hx, numberOf?, Option.some_inj, WithBotTop.coe_injective.eq_iff] at h
    exact .inr ⟨sign, m, e, pos, rfl, h.symm⟩

/-- The mantissa and the exponent are those of a double, if there are any. -/
def IsCanonicalFloat : UnpackedFloat → Prop
  | .finite _ m e _ => IsCanonical m e
  | _ => True

theorem isCanonicalFloat_unpack (x : Float) : IsCanonicalFloat (unpack x) := by
  cases h : unpack x with
  | finite s m e pos => exact isCanonical_of_unpack h
  | _ => trivial

theorem cmp_coe (p q : ℚ) : cmp (p : WithBotTop ℚ) q = cmp p q :=
  WithBotTop.coe_strictMono.cmp_map_eq p q

theorem compare_eq_map₂_cmp {u v : UnpackedFloat} (hu : IsCanonicalFloat u)
    (hv : IsCanonicalFloat v) :
    u.compare v = Option.map₂ cmp (numberOf? u) (numberOf? v) := by
  cases u with
  | notANumber => cases v <;> rfl
  | infinity s => cases s <;> cases v with
    | infinity t => cases t <;> rfl
    | _ => rfl
  | zero s => cases v with
    | infinity t => cases t <;> rfl
    | finite t m e pos =>
      rw [numberOf?, numberOf?, Option.map₂_some_some, cmp_coe]
      cases t with
      | positive => rw [(cmp_eq_lt_iff _ _).2 (rational_positive_pos pos e)]; rfl
      | negative => rw [(cmp_eq_gt_iff _ _).2 (rational_negative_neg pos e)]; rfl
    | _ => rfl
  | finite s m e pos => cases v with
    | notANumber => cases s <;> rfl
    | infinity t => cases s <;> cases t <;> rfl
    | zero t =>
      rw [numberOf?, numberOf?, Option.map₂_some_some, cmp_coe]
      cases s with
      | positive => rw [(cmp_eq_gt_iff _ _).2 (rational_positive_pos pos e)]; rfl
      | negative => rw [(cmp_eq_lt_iff _ _).2 (rational_negative_neg pos e)]; rfl
    | finite t m' e' pos' =>
      rw [compare_finite pos pos' hu hv, numberOf?, numberOf?, Option.map₂_some_some, cmp_coe]

theorem compare_unpack (x y : Float) :
    (unpack x).compare (unpack y) = Option.map₂ cmp (number? x) (number? y) :=
  compare_eq_map₂_cmp (isCanonicalFloat_unpack x) (isCanonicalFloat_unpack y)

theorem lt_iff {x y : Float} : x < y ↔ Option.map₂ cmp (number? x) (number? y) = some .lt := by
  show decide (((unpack x).compare (unpack y) == some .lt) = true) = true ↔ _
  rw [decide_eq_true_eq, beq_iff_eq, compare_unpack]

theorem beq_iff {x y : Float} :
    (x == y) = true ↔ Option.map₂ cmp (number? x) (number? y) = some .eq := by
  show ((unpack x).compare (unpack y) == some .eq) = true ↔ _
  rw [beq_iff_eq, compare_unpack]

theorem le_iff {x y : Float} :
    x ≤ y ↔ ∃ o, Option.map₂ cmp (number? x) (number? y) = some o ∧ o ≠ .gt := by
  show decide (((unpack x).compare (unpack y)).any Ordering.isLE = true) = true ↔ _
  rw [decide_eq_true_eq, compare_unpack]
  rcases Option.map₂ cmp (number? x) (number? y) with _ | _ | _ | _ <;> simp

/-- **Doubles are ordered like their numbers**, and not at all if one of them has none. -/
theorem order?_eq (x y : Float) : order? x y = Option.map₂ cmp (number? x) (number? y) := by
  simp only [order?, lt_iff, beq_iff]
  rcases number? x with _ | p
  · simp
  rcases number? y with _ | q
  · simp
  simp only [Option.map₂_some_some, Option.some.injEq]
  rw [← cmp_swap p q]
  cases cmp p q <;> simp [Ordering.swap]

theorem lt_iff_of_number? {x y : Float} {p q : ℚ} (hx : number? x = some (p : WithBotTop ℚ))
    (hy : number? y = some (q : WithBotTop ℚ)) : x < y ↔ p < q := by
  rw [lt_iff, hx, hy, Option.map₂_some_some, Option.some_inj, cmp_coe, cmp_eq_lt_iff]

theorem le_iff_of_number? {x y : Float} {p q : ℚ} (hx : number? x = some (p : WithBotTop ℚ))
    (hy : number? y = some (q : WithBotTop ℚ)) : x ≤ y ↔ p ≤ q := by
  rw [le_iff, hx, hy, Option.map₂_some_some, cmp_coe]
  simp only [Option.some_inj, exists_eq_left', ne_eq, cmp_eq_gt_iff, not_lt]

theorem beq_iff_of_number? {x y : Float} {p q : ℚ} (hx : number? x = some (p : WithBotTop ℚ))
    (hy : number? y = some (q : WithBotTop ℚ)) : (x == y) = true ↔ p = q := by
  rw [beq_iff, hx, hy, Option.map₂_some_some, Option.some_inj, cmp_coe, cmp_eq_eq_iff]

end Binary64

end DarjaLang
