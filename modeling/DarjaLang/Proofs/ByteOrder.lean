import DarjaLang.Proofs.Bytes
import Mathlib

/-!
# The order of texts and the order of their bytes

Texts are ordered character by character.  In UTF-8 that is the same as byte by byte: the first byte
of a character tells how many bytes follow it, it is greater for the longer characters, and the
bytes that follow are six bits each, the most significant ones first.

* `Lines.sextets` are the bytes of a character in that form, and `utf8EncodeChar_eq` says so.
* `precedes_utf8EncodeChar`: a smaller character has smaller bytes, whatever stands behind it.
* `encode_lt_iff` is the result for texts.
-/

set_option autoImplicit false

namespace DarjaLang

namespace Lines

/-- The first bytes come before the others, whatever stands behind both of them. -/
def Precedes (xs ys : List UInt8) : Prop := ∀ as bs : List UInt8, xs ++ as < ys ++ bs

/-- A number as a first byte and `k` bytes of six bits each. -/
def sextets (first : ℕ → UInt8) : (k : ℕ) → ℕ → List UInt8
  | 0, n => [first n]
  | k + 1, n => sextets first k (n / 64) ++ [UInt8.ofNat (n % 64 + 0x80)]

theorem utf8EncodeChar_eq (c : Char) : String.utf8EncodeChar c =
    if c.toNat ≤ 0x7f then sextets UInt8.ofNat 0 c.toNat
    else if c.toNat ≤ 0x7ff then sextets (fun n => UInt8.ofNat (n % 0x20 + 0xc0)) 1 c.toNat
    else if c.toNat ≤ 0xffff then sextets (fun n => UInt8.ofNat (n % 0x10 + 0xe0)) 2 c.toNat
    else sextets (fun n => UInt8.ofNat (n % 0x08 + 0xf0)) 3 c.toNat := by
  simp only [sextets, Nat.div_div_eq_div_mul, List.cons_append, List.nil_append]
  rfl

theorem ofNat_lt_ofNat {m n : ℕ} (h : m < n) (hn : n < 256) : UInt8.ofNat m < UInt8.ofNat n := by
  rw [UInt8.lt_iff_toNat_lt, UInt8.toNat_ofNat', UInt8.toNat_ofNat']
  omega

theorem ofNat_mod_lt (bound offset : ℕ) (hbound : bound + offset ≤ 256) (m n : ℕ) (h : m < n)
    (hn : n < bound) : UInt8.ofNat (m % bound + offset) < UInt8.ofNat (n % bound + offset) := by
  rw [Nat.mod_eq_of_lt (h.trans hn), Nat.mod_eq_of_lt hn]
  exact ofNat_lt_ofNat (by omega) (by omega)

variable {first first' : ℕ → UInt8} {k k' m n : ℕ}

theorem exists_sextets (first : ℕ → UInt8) (k n : ℕ) :
    ∃ xs, sextets first k n = first (n / 64 ^ k) :: xs := by
  induction k generalizing n with
  | zero => exact ⟨[], by rw [sextets, Nat.pow_zero, Nat.div_one]⟩
  | succ k ih =>
    obtain ⟨xs, hxs⟩ := ih (n / 64)
    rw [sextets, hxs, Nat.div_div_eq_div_mul, ← Nat.pow_succ']
    exact ⟨_, rfl⟩

/-- Different first bytes decide. -/
theorem precedes_of_first_lt (h : first (m / 64 ^ k) < first' (n / 64 ^ k')) :
    Precedes (sextets first k m) (sextets first' k' n) := by
  obtain ⟨xs, hxs⟩ := exists_sextets first k m
  obtain ⟨ys, hys⟩ := exists_sextets first' k' n
  rw [hxs, hys]
  exact fun _ _ => .rel h

/-- Among numbers of the same length the smaller one comes first. -/
theorem precedes_of_lt (bound : ℕ) (hfirst : ∀ m n, m < n → n < bound → first m < first n)
    (hlt : m < n) (hn : n < bound * 64 ^ k) : Precedes (sextets first k m) (sextets first k n) := by
  induction k generalizing m n with
  | zero => exact fun _ _ => .rel (hfirst m n hlt (by simpa using hn))
  | succ k ih =>
    intro as bs
    rw [Nat.pow_succ, ← Nat.mul_assoc] at hn
    rw [sextets, sextets, List.append_assoc, List.append_assoc]
    rcases (Nat.div_le_div_right hlt.le : m / 64 ≤ n / 64).lt_or_eq with hdiv | hdiv
    · exact ih hdiv (by omega) _ _
    · rw [hdiv]
      exact List.append_left_lt (.rel (ofNat_lt_ofNat (by omega) (by omega)))

/-- **A smaller character has smaller bytes.** -/
theorem precedes_utf8EncodeChar {c d : Char} (h : c < d) :
    Precedes (String.utf8EncodeChar c) (String.utf8EncodeChar d) := by
  have hlt : c.toNat < d.toNat := h
  have hd : d.toNat < 0x110000 := d.valid.elim (fun hd => Nat.lt_trans hd (by decide)) And.right
  rw [utf8EncodeChar_eq, utf8EncodeChar_eq]
  generalize c.toNat = m at hlt
  generalize d.toNat = n at hlt hd
  -- Characters of the same length differ somewhere, and others in their first bytes.
  split_ifs <;> try omega
  · exact precedes_of_lt 0x80 (fun _ _ hab hb => ofNat_lt_ofNat hab (by omega)) hlt (by omega)
  · exact precedes_of_first_lt (ofNat_lt_ofNat (by omega) (by omega))
  · exact precedes_of_first_lt (ofNat_lt_ofNat (by omega) (by omega))
  · exact precedes_of_first_lt (ofNat_lt_ofNat (by omega) (by omega))
  · exact precedes_of_lt 0x20 (ofNat_mod_lt 0x20 0xc0 (by decide)) hlt (by omega)
  · exact precedes_of_first_lt (ofNat_lt_ofNat (by omega) (by omega))
  · exact precedes_of_first_lt (ofNat_lt_ofNat (by omega) (by omega))
  · exact precedes_of_lt 0x10 (ofNat_mod_lt 0x10 0xe0 (by decide)) hlt (by omega)
  · exact precedes_of_first_lt (ofNat_lt_ofNat (by omega) (by omega))
  · exact precedes_of_lt 0x08 (ofNat_mod_lt 0x08 0xf0 (by decide)) hlt (by omega)

theorem encode_lt {cs ds : List Char} (h : cs < ds) : encode cs < encode ds := by
  induction h with
  | nil =>
    obtain ⟨b, bs, hb⟩ := List.exists_cons_of_ne_nil String.utf8EncodeChar_ne_nil
    rw [encode_nil, encode_cons, hb]
    exact .nil
  | cons h ih => exact List.append_left_lt ih
  | rel h => exact precedes_utf8EncodeChar h _ _

/-- **Texts are ordered as their bytes are.** -/
theorem encode_lt_iff {cs ds : List Char} : encode cs < encode ds ↔ cs < ds := by
  refine ⟨fun h => ?_, encode_lt⟩
  rcases lt_trichotomy cs ds with hlt | rfl | hgt
  · exact hlt
  · exact absurd h (List.lt_irrefl _)
  · exact absurd h (List.lt_asymm (encode_lt hgt))

end Lines

end DarjaLang
