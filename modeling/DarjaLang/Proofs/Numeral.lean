import DarjaLang.Numeral
import DarjaLang.WhiteSpace
import Mathlib.Data.List.Induction
import Mathlib.Data.Nat.Digits.Defs

/-!
# Reading numerals

* `Numeral.value_eq_decimal`: a run of digits is read as its decimal value.
* `Numeral.int64?_of_isDigit`: a numeral without a sign is the word of its value, if there is one.
* `Numeral.int64?_ofInt`: the numeral of a word is read as the word, whatever its sign.
* `WhiteSpace.trim_eq_self`: nothing is trimmed from a text without white space, and so from no
  numeral.
-/

set_option autoImplicit false

namespace DarjaLang

namespace Numeral

variable {ds : List Char}

/-! ## Runs of digits -/

/-- The decimal value of a run of digits: each digit counts for ten times as much as the one
behind it. -/
def decimal (ds : List Char) : ℕ := Nat.ofDigits 10 (ds.map digitValue).reverse

/-- **A run of digits is read as its decimal value.** -/
theorem value_eq_decimal (ds : List Char) : value ds = decimal ds := by
  induction ds using List.reverseRecOn with
  | nil => rfl
  | append_singleton ds d ih =>
    rw [value_concat, ih, decimal, decimal, List.map_append, List.reverse_append, Nat.add_comm]
    rfl

/-- Digits in front of others count for as many powers of ten as there are others. -/
theorem value_append (ds es : List Char) :
    value (ds ++ es) = value ds * 10 ^ es.length + value es := by
  induction es using List.reverseRecOn with
  | nil => simp
  | append_singleton es e ih =>
    rw [← List.append_assoc, value_concat, value_concat, ih, List.length_append,
      List.length_singleton]
    ring

/-- Leading zeros count for nothing. -/
theorem value_leftpad (n : ℕ) (ds : List Char) : value (ds.leftpad n '0') = value ds := by
  have hzeros : ∀ k, value (List.replicate k '0') = 0 := fun k => by
    induction k with
    | zero => rfl
    | succ k ih => rw [List.replicate_succ', value_concat, ih]; rfl
  rw [List.leftpad, value_append, hzeros, Nat.zero_mul, Nat.zero_add]

/-- No digit is a sign. -/
theorem integer?_eq_of_isDigit (h : ∀ c ∈ ds, c.isDigit = true) :
    integer? ds = if isNumeral ds then some ↑(value ds) else none := by
  rw [integer?.eq_def]
  split
  · cases h '+' List.mem_cons_self
  · cases h '-' List.mem_cons_self
  · rfl

theorem isNumeral_iff : isNumeral ds = true ↔ ds ≠ [] ∧ ∀ c ∈ ds, c.isDigit = true := by
  simp [isNumeral]

theorem integer?_of_isDigit (hne : ds ≠ []) (h : ∀ c ∈ ds, c.isDigit = true) :
    integer? ds = some ↑(value ds) := by
  rw [integer?_eq_of_isDigit h, if_pos (isNumeral_iff.2 ⟨hne, h⟩)]

theorem int64?_of_isDigit (hne : ds ≠ []) (h : ∀ c ∈ ds, c.isDigit = true) :
    int64? ds = fit? (value ds) := by
  rw [int64?, integer?_of_isDigit hne h, Option.bind_some]

/-! ## The numeral of an integer -/

theorem isDigit_of_mem_digits {n : ℕ} {c : Char} (h : c ∈ digits n) : c.isDigit = true :=
  Nat.isDigit_of_mem_toDigits (by decide) (by decide) h

theorem digits_ne_nil (n : ℕ) : digits n ≠ [] := Nat.toDigits_ne_nil

theorem isNumeral_digits (n : ℕ) : isNumeral (digits n) = true :=
  isNumeral_iff.2 ⟨digits_ne_nil n, fun _ => isDigit_of_mem_digits⟩

/-- **The numeral of an integer is read as the integer.** -/
theorem integer?_ofInt (n : ℤ) : integer? (ofInt n) = some n := by
  rw [ofInt]
  split_ifs with h
  · rw [integer?, if_pos (isNumeral_digits _), value_digits, Int.ofNat_natAbs_of_nonpos h.le,
      neg_neg]
  · rw [integer?_of_isDigit (digits_ne_nil _) fun _ => isDigit_of_mem_digits, value_digits,
      Int.natAbs_of_nonneg (not_lt.1 h)]

theorem int64?_ofInt (n : Int64) : int64? (ofInt n.toInt) = some n := by
  rw [int64?, integer?_ofInt, Option.bind_some, fit?_toInt]

/-- The numeral of an integer has a minus sign or nothing in front of its digits. -/
theorem isDigit_or_eq_of_mem_ofInt {n : ℤ} {c : Char} (h : c ∈ ofInt n) :
    c.isDigit = true ∨ c = '-' := by
  rw [ofInt] at h
  split_ifs at h
  · rcases List.mem_cons.1 h with rfl | h
    · exact .inr rfl
    · exact .inl (isDigit_of_mem_digits h)
  · exact .inl (isDigit_of_mem_digits h)

end Numeral

namespace WhiteSpace

/-- A text without white space stays as it is. -/
theorem trim_eq_self {cs : List Char} (h : ∀ c ∈ cs, contains c = false) : trim cs = cs := by
  have hself : ∀ {ds : List Char}, (∀ c ∈ ds, contains c = false) → ds.dropWhile contains = ds := by
    intro ds hds
    rcases ds with _ | ⟨d, ds⟩
    · rfl
    · rw [List.dropWhile_cons_of_neg (by simp [hds d List.mem_cons_self])]
  rw [trim, hself h, hself fun c hc => h c (List.mem_reverse.1 hc), List.reverse_reverse]

theorem contains_of_isDigit {c : Char} (h : c.isDigit = true) : contains c = false := by
  obtain ⟨hge, hle⟩ := Char.isDigit_iff_toNat.1 h
  have hzero : '0'.toNat = 0x30 := rfl
  have hnine : '9'.toNat = 0x39 := rfl
  simp [contains, ranges]
  omega

/-- There is no white space in the numeral of an integer. -/
theorem trim_ofInt (n : ℤ) : trim (Numeral.ofInt n) = Numeral.ofInt n :=
  trim_eq_self fun c hc => by
    rcases Numeral.isDigit_or_eq_of_mem_ofInt hc with hdigit | rfl
    · exact contains_of_isDigit hdigit
    · rfl

end WhiteSpace

end DarjaLang
