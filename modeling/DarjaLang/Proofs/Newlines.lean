import DarjaLang.Value.Basic
import DarjaLang.Diagnostic
import DarjaLang.Syntax.Error

/-!
# Newlines in texts

How many newlines there are in a text that is put together.  The texts of numbers, of positions and
of single characters have none.
-/

set_option autoImplicit false

namespace DarjaLang

/-- How many newlines there are in a text. -/
def newlines (s : String) : Nat := s.toList.count '\n'

@[simp] theorem newlines_append (s t : String) : newlines (s ++ t) = newlines s + newlines t := by
  simp [newlines]

/-- A text between two others that have no newlines. -/
theorem newlines_between {front behind : String} (hfront : newlines front = 0)
    (hbehind : newlines behind = 0) (s : String) :
    newlines (front ++ s ++ behind) = newlines s := by
  rw [newlines_append, newlines_append, hfront, hbehind, Nat.zero_add, Nat.add_zero]

theorem newlines_eq_zero_iff {s : String} : newlines s = 0 ↔ '\n' ∉ s.toList :=
  List.count_eq_zero

theorem newlines_ofList_eq_zero_iff {cs : List Char} :
    newlines (String.ofList cs) = 0 ↔ '\n' ∉ cs := by
  rw [newlines_eq_zero_iff, String.toList_ofList]

/-! ## Numbers -/

theorem Numeral.newline_not_mem_digits (n : Nat) : '\n' ∉ digits n := fun h =>
  absurd (Nat.isDigit_of_mem_toDigits (by decide) (by decide) h) (by decide)

@[simp] theorem newlines_repr (n : Nat) : newlines n.repr = 0 := by
  rw [Nat.repr_eq_ofList_toDigits, newlines_ofList_eq_zero_iff]
  exact Numeral.newline_not_mem_digits n

theorem Numeral.newline_not_mem_ofInt (n : Int) : '\n' ∉ ofInt n := by
  rw [ofInt]
  split
  · simp [newline_not_mem_digits]
  · exact newline_not_mem_digits _

namespace Binary64

theorem Decimal.newline_not_mem_text (d : Decimal) : '\n' ∉ d.text := by
  rw [text, List.leftpad]
  split <;> simp [Numeral.newline_not_mem_digits]

@[simp] theorem newlines_signText (sign : Float.Model.UnpackedFloat.Sign) :
    newlines (signText sign) = 0 := by
  cases sign <;> rfl

/-- Whatever digits are chosen, a double takes one line. -/
theorem newlines_render (zeroPlaces : Nat) (digits : (m : Nat) → Int → 0 < m → Decimal)
    (x : Float) : newlines (render zeroPlaces digits x) = 0 := by
  rw [render]
  split
  · rfl
  · rw [newlines_append, newlines_signText]
    rfl
  · rw [newlines_append, newlines_signText,
      newlines_ofList_eq_zero_iff.2 (Decimal.newline_not_mem_text _)]
  · rw [newlines_append, newlines_signText,
      newlines_ofList_eq_zero_iff.2 (Decimal.newline_not_mem_text _)]

@[simp] theorem newlines_shortest (x : Float) : newlines (shortest x) = 0 := newlines_render _ _ x

@[simp] theorem newlines_text (x : Float) : newlines (text x) = 0 := by
  rw [text]
  split
  · exact newlines_render _ _ x
  · exact newlines_shortest x

end Binary64

/-- Numbers take one line. -/
theorem Value.newlines_text_of_isNumeric {v : Value} (h : v.isNumeric = true) :
    newlines v.text = 0 := by
  cases v with
  | integer n => exact newlines_ofList_eq_zero_iff.2 (Numeral.newline_not_mem_ofInt _)
  | float x => exact Binary64.newlines_text x
  | _ => cases h

@[simp] theorem newlines_valueType (t : ValueType) : newlines t.name = 0 := by
  cases t <;> rfl

@[simp] theorem newlines_symbol (op : BinaryOperator) : newlines op.symbol = 0 := by
  rcases op with op | op | op <;> cases op <;> rfl

/-! ## Positions and characters -/

@[simp] theorem Position.newlines_describe (p : Position) : newlines p.describe = 0 := by
  have hline : newlines "line " = 0 := rfl
  have hcolumn : newlines ", column " = 0 := rfl
  simp [describe, hline, hcolumn]

theorem newline_not_mem_toDigits {base : Nat} (hbase : 1 < base) (hle : base ≤ 16) (n : Nat) :
    '\n' ∉ Nat.toDigits base n := by
  have hdigit : ∀ d < 16, Nat.digitChar d ≠ '\n' := by decide
  induction n using Nat.strongRecOn with
  | ind n ih =>
    rcases Nat.lt_or_ge n base with hn | hn
    · rw [Nat.toDigits_of_lt_base hn, List.mem_singleton]
      exact (hdigit n (by omega)).symm
    · have hlt : n % base < base := Nat.mod_lt n (by omega)
      rw [Nat.toDigits_of_base_le hbase hn, List.mem_append, not_or, List.mem_singleton]
      exact ⟨ih _ (Nat.div_lt_self (by omega) hbase), (hdigit _ (by omega)).symm⟩

/-- A character is shown in one line, a newline too. -/
@[simp] theorem newlines_escapedText (c : Char) : newlines (escapedText c) = 0 := by
  rw [escapedText.eq_def]
  split
  any_goals rfl
  next hnewline _ _ _ =>
  split
  · rw [newlines_eq_zero_iff, Char.toString]
    simpa using fun h => hnewline h.symm
  · have hdigits : newlines (String.ofList (Nat.toDigits 16 c.toNat)) = 0 :=
      newlines_ofList_eq_zero_iff.2 (newline_not_mem_toDigits (by decide) (by decide) _)
    rw [newlines_between rfl rfl, hdigits]

/-! ## Complaints -/

namespace ParseError

theorem newlines_lexical (error : LexicalError) : newlines (lexical error).message = 0 := by
  cases error with
  | unrecognizedCharacter c =>
    show newlines ("Unrecognized character '" ++ escapedText c ++ "'.") = 0
    rw [newlines_between rfl rfl, newlines_escapedText]
  | invalidString =>
    show newlines "Unterminated string or unknown escape sequence." = 0
    rfl

theorem newlines_unexpectedToken (found expected : String) :
    newlines (unexpectedToken found expected).message = newlines found + newlines expected := by
  have hfront : newlines "Unexpected token " = 0 := rfl
  have hmiddle : newlines ", expected " = 0 := rfl
  have hbehind : newlines "." = 0 := rfl
  show newlines ("Unexpected token " ++ found ++ ", expected " ++ expected ++ ".") = _
  simp [hfront, hmiddle, hbehind]

theorem newlines_incompleteExpression (expected : String) :
    newlines (incompleteExpression expected).message = newlines expected := by
  show newlines ("Incomplete expression, expected " ++ expected ++ ".") = _
  rw [newlines_between rfl rfl]

theorem newlines_trailingTokens (found : String) :
    newlines (trailingTokens found).message = newlines found := by
  have hfront : newlines "Extra tokens after statement. Check your input: " = 0 := rfl
  show newlines ("Extra tokens after statement. Check your input: " ++ found) = _
  simp [hfront]

end ParseError

end DarjaLang
