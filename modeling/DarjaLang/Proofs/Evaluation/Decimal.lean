import DarjaLang.Proofs.Binary64.Decimal
import DarjaLang.Proofs.Evaluation.Numeral

/-!
# Floats that are read back

The text of a finite float can be read in two ways: by the function `float`, for which the sign is a
part of the number, and as a line of a program, where it is an operator in front of a literal.  Both
ways lead back to the float, the sign of zero included.

* `callFunction_float_str`: `float` undoes `str`.
* `Token.scan_signed`: the tokens of a number with a point, with or without a sign.
* `Statement.run_text_float`: what a line with the text evaluates to.
* `floats_read_back` puts this together.
-/

set_option autoImplicit false

namespace DarjaLang

open Grammar
open Binary64 (signed)

variable {x : Float} {negative : Bool} {f : DecimalFraction}

/-! ## The characters of a text -/

namespace DecimalFraction

theorem isDigit_or_eq_of_mem_signed {c : Char} (h : c ∈ signed negative f.chars) :
    c.isDigit = true ∨ c = '.' ∨ c = '-' := by
  have hchars : c ∈ f.chars → c.isDigit = true ∨ c = '.' ∨ c = '-' := fun hc =>
    (isDigit_or_eq_of_mem_chars hc).imp_right .inl
  rw [signed] at h
  split_ifs at h
  · exact (List.mem_cons.1 h).elim (fun hminus => .inr (.inr hminus)) hchars
  · exact hchars h

/-- There are no letters in it. -/
theorem not_mem_signed {c : Char} (hdigit : c.isDigit = false) (hpoint : c ≠ '.')
    (hminus : c ≠ '-') : c ∉ signed negative f.chars := by
  intro hc
  rcases isDigit_or_eq_of_mem_signed hc with h | h | h
  exacts [absurd h (by simp [hdigit]), hpoint h, hminus h]

theorem point_mem_signed (negative : Bool) (f : DecimalFraction) :
    '.' ∈ signed negative f.chars := by
  rw [signed]
  split_ifs <;> simp [chars]

theorem trim_signed (negative : Bool) (f : DecimalFraction) :
    WhiteSpace.trim (signed negative f.chars) = signed negative f.chars :=
  WhiteSpace.trim_eq_self fun c hc => by
    rcases isDigit_or_eq_of_mem_signed hc with hdigit | rfl | rfl
    · exact WhiteSpace.contains_of_isDigit hdigit
    · rfl
    · rfl

theorem rule_float (f : DecimalFraction) : Token.Rule (some (.float f.toDouble)) f.chars :=
  .float f.whole_ne_nil f.part_ne_nil f.isDigit_whole f.isDigit_part

end DecimalFraction

/-- An integer is written without a point. -/
theorem Value.text_ne_integer_of_signed {v : Value}
    (h : v.text.toList = signed negative f.chars) (n : Int64) : v.text ≠ (integer n).text := by
  intro htext
  have hpoint := f.point_mem_signed negative
  rw [← h, htext, text, String.toList_ofList] at hpoint
  rcases Numeral.isDigit_or_eq_of_mem_ofInt hpoint with hdigit | hminus
  · exact absurd hdigit (by decide)
  · exact absurd hminus (by decide)

/-! ## The function `float` -/

theorem callFunction_float (v : Value) : callFunction "float" [v] = Builtin.toFloating v := rfl

/-- **`float` undoes `str`** for finite floats. -/
theorem callFunction_float_str (h : x.isFinite = true) :
    callFunction "float" [.string (Value.float x).text] = .ok (.float x) := by
  obtain ⟨negative, f, htext, hdouble, hx⟩ := Binary64.exists_text_eq h
  have hread : Binary64.ofText? (WhiteSpace.trim (Value.float x).text.toList) = some x := by
    rw [Value.text, htext, f.trim_signed, Binary64.ofText?_signed, hdouble, ← hx]
  rw [callFunction_float, Builtin.toFloating, hread, Option.filter_some, if_pos h]

/-! ## Lines -/

/-- A number with a point is one token, and its sign is another one. -/
theorem Token.scan_signed (negative : Bool) (f : DecimalFraction) (line : ℕ) :
    scan (String.ofList (signed negative f.chars)) line =
      (if negative then [⟨.minus, "-", ⟨line, 1⟩⟩] else []) ++
        [⟨.float f.toDouble, String.ofList f.chars, ⟨line, if negative then 2 else 1⟩⟩,
          ⟨.endOfLine, "", .behind line (signed negative f.chars)⟩] := by
  have hkind : Kind.float f.toDouble ≠ .endOfLine := fun hkind => by cases hkind
  cases negative with
  | true => exact scan_minus_of_rule f.rule_float hkind line
  | false => exact scan_of_rule f.rule_float hkind line

namespace Statement

/-- A number with a point is a literal, and its sign is an operator. -/
theorem ofTokens_scan_signed (negative : Bool) (f : DecimalFraction) (line : ℕ) :
    ofTokens (Token.scan (String.ofList (signed negative f.chars)) line) =
      .expression (if negative then
          .unary .negate (.literal (.float f.toDouble) ⟨line, 2⟩) ⟨line, 1⟩
        else .literal (.float f.toDouble) ⟨line, 1⟩) ⟨line, 1⟩ := by
  rw [Token.scan_signed]
  cases negative with
  | true => exact (ofTokens_valid_iff.2 (ofTokens?_minus_literal (v := .float _))).1
  | false => exact (ofTokens_valid_iff.2 (ofTokens?_literal (v := .float _))).1

/-- **The line with the text of a finite float evaluates to the float**, whatever the limits and
the variables are. -/
theorem run_text_float (h : x.isFinite = true) (line : ℕ) {limit : Option UInt64} {bound : ℕ}
    {s : State} :
    (ofTokens (Token.scan (Value.float x).text line)).run limit bound s =
      some ⟨.ok (.next (some (.float x))), s⟩ := by
  obtain ⟨negative, f, htext, hdouble, hx⟩ := Binary64.exists_text_eq h
  rw [← hdouble] at hx
  rw [Value.text, ← String.ofList_toList (s := Binary64.text x), htext, ofTokens_scan_signed, hx]
  cases negative <;> rfl

end Statement

/-- **Finite floats read back as they were written.**  The text of one is its sign and digits with a
point between them, and so it is no integer's text and has no exponent.  The function `float` reads
it as the same float, with the same bits.  As a text it has the tokens that one expects, and as a
line of a program it evaluates to the float. -/
theorem floats_read_back {x : Float} (h : x.isFinite = true) :
    ∃ (negative : Bool) (f : DecimalFraction),
      x = (if negative then -x.abs else x.abs) ∧
      (Value.float x).text.toList = signed negative f.chars ∧
      (∀ n : Int64, (Value.float x).text ≠ (Value.integer n).text) ∧
      'e' ∉ (Value.float x).text.toList ∧ 'E' ∉ (Value.float x).text.toList ∧
      (callFunction "str" [.float x] >>= fun text => callFunction "float" [text]) =
        .ok (.float x) ∧
      ∀ line : ℕ,
        (Token.scan (Value.float x).text line).map Token.kind =
          (if negative then [.minus] else []) ++ [.float x.abs, .endOfLine] ∧
        ∀ (limit : Option UInt64) (bound : ℕ) (s : State),
          (Statement.ofTokens (Token.scan (Value.float x).text line)).run limit bound s =
            some ⟨.ok (.next (some (.float x))), s⟩ := by
  obtain ⟨negative, f, htext, hdouble, hx⟩ := Binary64.exists_text_eq h
  have hvalue : (Value.float x).text = String.ofList (signed negative f.chars) :=
    String.toList_inj.1 (htext.trans String.toList_ofList.symm)
  refine ⟨negative, f, hx, htext, Value.text_ne_integer_of_signed htext, ?_, ?_, ?_,
    fun line => ⟨?_, fun limit bound s => ?_⟩⟩
  · rw [Value.text, htext]
    exact DecimalFraction.not_mem_signed rfl (by decide) (by decide)
  · rw [Value.text, htext]
    exact DecimalFraction.not_mem_signed rfl (by decide) (by decide)
  · rw [callFunction_str_bind, callFunction_float_str h]
  · rw [hvalue, Token.scan_signed, hdouble]
    cases negative <;> rfl
  · exact Statement.run_text_float h line

/-- Zero with a sign, and a number that is not written as what it is exactly. -/
theorem floats_read_back_negative :
    (callFunction "str" [.float (-0.0)] >>= fun text => callFunction "float" [text]) =
        .ok (.float (-0.0)) ∧
      (-0.0 : Float) ≠ 0.0 ∧
      (Token.scan "-0.1" 1).map Token.kind = [.minus, .float 0.1, .endOfLine] ∧
      (Statement.ofTokens (Token.scan "-0.1" 1)).run none 0 ⟨.empty, #[]⟩ =
        some ⟨.ok (.next (some (.float (-0.1)))), ⟨.empty, #[]⟩⟩ := by
  have hzero : Float.isFinite (-0.0) = true := rfl
  have htenth : Float.isFinite (-0.1) = true := rfl
  obtain ⟨-, -, -, -, -, -, -, hread, -⟩ := floats_read_back hzero
  obtain ⟨negative, -, hsign, -, -, -, -, -, hline⟩ := floats_read_back htenth
  obtain rfl : negative = true := by
    cases negative with
    | true => rfl
    | false => exact absurd hsign (by decide)
  have htext : (Value.float (-0.1)).text = "-0.1" := by decide
  obtain ⟨hscan, hrun⟩ := hline 1
  rw [htext] at hscan hrun
  exact ⟨hread, by decide, hscan, hrun none 0 _⟩

end DarjaLang
