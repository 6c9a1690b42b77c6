/-!
# Decimal numerals

Whole numbers are written with the ASCII digits and nothing else: no separators, no blanks.  A
numeral may have any length and any number of leading zeros.

* `Numeral.value` reads a run of digits, `Numeral.digits` writes one, and reading undoes writing
  (`Numeral.value_digits`).
* `Numeral.integer?` reads an optional sign and digits into an unbounded integer.
* `Numeral.int64?` is the same with a range: a number that does not fit is refused, never wrapped.
-/

set_option autoImplicit false

namespace DarjaLang

namespace Numeral

/-- The digit a character stands for. -/
def digitValue (c : Char) : Nat := c.toNat - '0'.toNat

/-- The number that a run of digits stands for, most significant digit first. -/
def value (ds : List Char) : Nat := ds.foldl (fun n c => 10 * n + digitValue c) 0

@[simp] theorem value_nil : value [] = 0 := rfl

/-- One more digit on the right multiplies by ten and adds. -/
theorem value_concat (ds : List Char) (d : Char) :
    value (ds ++ [d]) = 10 * value ds + digitValue d := by
  simp [value, List.foldl_append]

/-- The shortest numeral of a number. -/
def digits (n : Nat) : List Char := Nat.toDigits 10 n

/-- The digit of a small number stands for it. -/
theorem digitValue_digitChar {d : Nat} (h : d < 10) : digitValue d.digitChar = d := by
  rw [digitValue, Nat.toNat_digitChar_of_lt_ten h]
  exact Nat.add_sub_cancel_left 48 d

/-- The numeral of a number reads as that number. -/
theorem value_digits (n : Nat) : value (digits n) = n := by
  induction n using Nat.strongRecOn with
  | ind n ih =>
    have hd : n % 10 < 10 := Nat.mod_lt _ (by decide)
    rcases Nat.lt_or_ge n 10 with h | h
    · rw [digits, Nat.toDigits_of_lt_base h]
      simpa [value] using digitValue_digitChar h
    · have hsplit := Nat.toDigits_append_toDigits (b := 10) (n := n / 10) (by decide)
        (Nat.div_pos h (by decide)) hd
      rw [Nat.div_add_mod, Nat.toDigits_of_lt_base hd] at hsplit
      rw [digits, ← hsplit, value_concat, digitValue_digitChar hd]
      have hq := ih (n / 10) (Nat.div_lt_self (by omega) (by decide))
      rw [digits] at hq
      rw [hq]
      exact Nat.div_add_mod n 10

/-- A nonempty run of digits. -/
def isNumeral (cs : List Char) : Bool := !cs.isEmpty && cs.all Char.isDigit

/-- Reads digits behind an optional sign. -/
def integer? : List Char → Option Int
  | '+' :: ds => if isNumeral ds then some (value ds) else none
  | '-' :: ds => if isNumeral ds then some (-(value ds : Int)) else none
  | ds => if isNumeral ds then some (value ds) else none

/-- The integer as a 64-bit word, if it is in the signed range. -/
def fit? (n : Int) : Option Int64 :=
  if Int64.minValue.toInt ≤ n ∧ n ≤ Int64.maxValue.toInt then some (Int64.ofInt n) else none

/-- A word that was made to fit is the integer itself. -/
theorem toInt_of_fit? {n : Int} {w : Int64} (h : fit? n = some w) : w.toInt = n := by
  unfold fit? at h
  split at h
  · next hr =>
    obtain rfl := Option.some.inj h
    have hmax := Int64.toInt_maxValue
    exact Int64.toInt_ofInt_of_le hr.1 (by omega)
  · cases h

/-- Every word fits as itself. -/
@[simp] theorem fit?_toInt (w : Int64) : fit? w.toInt = some w := by
  rw [fit?, if_pos ⟨Int64.minValue_le_toInt w, Int64.toInt_le w⟩, Int64.ofInt_toInt]

/-- Reads a signed 64-bit integer. -/
def int64? (cs : List Char) : Option Int64 := (integer? cs).bind fit?

/-- The numeral of an integer, with a minus sign if it is negative. -/
def ofInt (n : Int) : List Char :=
  if n < 0 then '-' :: digits n.natAbs else digits n.natAbs

end Numeral

end DarjaLang
