import DarjaLang.Proofs.Binary64.Finite
import DarjaLang.Proofs.Numeral
import DarjaLang.Proofs.Token.WrittenOut

/-!
# Float literals

A float literal is a decimal fraction, digits with a point between them, and it may be too large for
a double.

* `Rule.exists_of_float`: only such digits are float literals.
* `Token.Denotes t q` says which number a float literal is written for.  `exists_denotes`: it is a
  finite double unless that number is too large.
-/

set_option autoImplicit false

namespace DarjaLang

namespace Token

/-! ## The rule for floats -/

theorem wordKind_ne_float (word : String) (x : Float) : wordKind word ≠ .float x := by
  intro h
  rw [wordKind.eq_def] at h
  split at h <;> cases h

theorem literalKind_ne_float (body : List Char) (x : Float) : literalKind body ≠ .float x := by
  intro h
  rw [literalKind] at h
  split at h <;> cases h

theorem Rule.exists_of_float {x : Float} {p : List Char} (h : Rule (some (.float x)) p) :
    ∃ whole part, whole ≠ [] ∧ part ≠ [] ∧ (∀ c ∈ whole, c.isDigit) ∧ (∀ c ∈ part, c.isDigit) ∧
      p = whole ++ '.' :: part ∧ x = Binary64.ofDigits whole part := by
  generalize hkind : some (Kind.float x) = kind at h
  cases h with
  | float hwhole hpart hall hdigits =>
    cases hkind
    exact ⟨_, _, hwhole, hpart, hall, hdigits, rfl, rfl⟩
  | word => exact absurd (Option.some.inj hkind).symm (wordKind_ne_float _ x)
  | literal => exact absurd (Option.some.inj hkind).symm (literalKind_ne_float _ x)
  | symbol hsymbol =>
    cases hkind
    cases hsymbol
  | newline | blanks | comment | integer => cases hkind

/-! ## The numbers of float literals -/

/-- The token is written with digits, a point and digits, and this is their number. -/
def Denotes (t : Token) (q : ℚ) : Prop :=
  ∃ whole part : List Char, whole ≠ [] ∧ part ≠ [] ∧ (∀ c ∈ whole, c.isDigit) ∧
    (∀ c ∈ part, c.isDigit) ∧ t.lexeme.toList = whole ++ '.' :: part ∧
    q = Numeral.decimal (whole ++ part) / 10 ^ part.length

/-- **A float literal is a finite double, or its number is too large for one** and it is
infinity. -/
theorem exists_denotes {text : String} {line : ℕ} {t : Token} (ht : t ∈ scan text line) {x : Float}
    (hkind : t.kind = .float x) :
    ∃ q, t.Denotes q ∧ Binary64.FiniteUnlessLarge .positive q x := by
  rcases exists_taken_of_mem_scan ht with ⟨rest, htaken⟩ | ⟨-, hend⟩
  · rw [hkind] at htaken
    obtain ⟨whole, part, hwhole, hpart, hall, hdigits, hlexeme, rfl⟩ :=
      (htaken.rule_of_ne_error nofun).exists_of_float
    refine ⟨_, ⟨whole, part, hwhole, hpart, hall, hdigits, hlexeme, rfl⟩, ?_⟩
    rw [← Numeral.value_eq_decimal, Binary64.ofDigits]
    exact Binary64.finiteUnlessLarge_ofDecimal _ _
  · rw [hkind] at hend
    cases hend

end Token

end DarjaLang
