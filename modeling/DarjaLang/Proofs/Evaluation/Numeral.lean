import DarjaLang.Evaluation.Statement
import DarjaLang.Proofs.Grammar.Statement.Completeness
import DarjaLang.Proofs.Numeral
import DarjaLang.Proofs.Token.WrittenOut
import DarjaLang.Proofs.Value.Arithmetic

/-!
# Integers that are read back

The text of an integer can be read in three ways: as a literal, by the function `int`, and as a
line of a program.  The first knows no sign, the second takes a sign as a part of the numeral, and
for the third the sign is an operator in front of a literal.  That makes a difference for the least
integer only, whose literal is out of range.

* `Value.ofLiteral?_of_isDigit`: a literal has its decimal value, or is refused.
* `callFunction_int_str`: `int` undoes `str`.
* `Statement.run_text_of_ne` and `Statement.run_text_minValue`: what a line with the text of an
  integer evaluates to.
* `integers_read_back` puts this together.
-/

set_option autoImplicit false

namespace DarjaLang

open Grammar

variable {ds : List Char}

/-! ## Literals -/

/-- A literal is put into range as any other integer. -/
theorem Value.ofLiteral?_of_isDigit (hne : ds ≠ []) (h : ∀ c ∈ ds, c.isDigit = true) :
    ofLiteral? (.integer (String.ofList ds)) = ofInt? (Numeral.value ds) := by
  rw [ofLiteral?, String.toList_ofList, Numeral.int64?_of_isDigit hne h, ofInt?]

theorem Value.ofLiteral?_digits (n : ℕ) :
    ofLiteral? (.integer (String.ofList (Numeral.digits n))) = ofInt? n := by
  rw [ofLiteral?_of_isDigit (Numeral.digits_ne_nil n) fun _ => Numeral.isDigit_of_mem_digits,
    Numeral.value_digits]

/-! ## The function `int` -/

theorem callFunction_str (v : Value) : callFunction "str" [v] = .ok (.string v.text) := rfl

/-- What is done with the text that `str` makes. -/
theorem callFunction_str_bind (v : Value) (f : Value → Except EvalError Value) :
    (callFunction "str" [v] >>= f) = f (.string v.text) := by
  rw [callFunction_str]
  rfl

theorem callFunction_int (v : Value) : callFunction "int" [v] = Builtin.toInteger v := rfl

/-- **`int` undoes `str`.** -/
theorem callFunction_int_str (n : Int64) :
    callFunction "int" [.string (Value.integer n).text] = .ok (.integer n) := by
  have htrim : WhiteSpace.trim (Value.integer n).text.toList = Numeral.ofInt n.toInt := by
    rw [Value.text, String.toList_ofList, WhiteSpace.trim_ofInt]
  rw [callFunction_int, Builtin.toInteger, htrim, Numeral.int64?_ofInt]

/-! ## Lines -/

namespace Token

variable {kind : Kind} {p : List Char}

theorem rule_digits (n : ℕ) :
    Rule (some (.integer (String.ofList (Numeral.digits n)))) (Numeral.digits n) :=
  .integer (Numeral.digits_ne_nil n) fun _ => Numeral.isDigit_of_mem_digits

theorem lexed_of_rule (h : Rule (some kind) p) (place : Position) :
    Lexed place p [⟨kind, String.ofList p, place⟩] := by
  have hlexed : Lexed place (p ++ []) _ := .token (.rule (h.longest (.inl rfl))) .done
  rwa [List.append_nil] at hlexed

/-- Only the end of a line ends with a newline. -/
theorem Rule.getLast?_ne_newline (h : Rule (some kind) p) (hkind : kind ≠ .endOfLine) :
    p.getLast? ≠ some '\n' := by
  have hp : p ≠ ['\n'] := by
    rintro rfl
    exact hkind (Option.some.inj (h.unique .newline))
  exact fun hlast => h.newline_not_mem hp (List.mem_of_getLast? hlast)

/-- What a rule takes as a whole is one token. -/
theorem scan_of_rule (h : Rule (some kind) p) (hkind : kind ≠ .endOfLine) (line : ℕ) :
    scan (String.ofList p) line =
      [⟨kind, String.ofList p, ⟨line, 1⟩⟩, ⟨.endOfLine, "", .behind line p⟩] := by
  have hlexed := lexed_of_rule h ⟨line, 1⟩
  rw [← String.toList_ofList (l := p)] at hlexed
  rw [hlexed.scan_eq, String.toList_ofList, if_neg (h.getLast?_ne_newline hkind)]
  rfl

/-- A minus sign in front of it is a token of its own. -/
theorem scan_minus_of_rule (h : Rule (some kind) p) (hkind : kind ≠ .endOfLine) (line : ℕ) :
    scan (String.ofList ('-' :: p)) line =
      [⟨.minus, "-", ⟨line, 1⟩⟩, ⟨kind, String.ofList p, ⟨line, 2⟩⟩,
        ⟨.endOfLine, "", .behind line ('-' :: p)⟩] := by
  have hcomment : startsComment '-' p = false := rfl
  have hminus : Longest (some .minus) ('-' :: p.take 0) (p.drop 0) :=
    longest_symbol rfl hcomment rfl rfl
  have hlexed : Lexed ⟨line, 1⟩ (['-'] ++ p) _ :=
    .token (.rule hminus) (lexed_of_rule h ⟨line, 2⟩)
  have hlast : ('-' :: p).getLast? ≠ some '\n' := by
    rw [← List.singleton_append, List.getLast?_append_of_ne_nil _ h.ne_nil]
    exact h.getLast?_ne_newline hkind
  rw [List.singleton_append, ← String.toList_ofList (l := '-' :: p)] at hlexed
  rw [hlexed.scan_eq, String.toList_ofList, if_neg hlast]
  rfl

end Token

namespace Statement

variable {v : Literal} {lexeme : String} {place position stop : Position}

/-- A literal is a statement. -/
theorem ofTokens?_literal :
    ofTokens? [⟨v.kind, lexeme, position⟩, ⟨.endOfLine, "", stop⟩] =
      .ok (.expression (.literal v position) position) := by
  have hliteral : IsExpr .disjunction 0 [⟨v.kind, lexeme, position⟩]
      (.literal v position) := .of_primary (.literal rfl) _
  have hafter : LineEnds [⟨.endOfLine, "", stop⟩] := List.forall_mem_singleton.2 rfl
  exact (IsLine.statement (.expression hliteral)).ofTokens? (by cases v <;> rfl) .nil hafter

/-- A minus sign in front of a literal is an operator. -/
theorem ofTokens?_minus_literal :
    ofTokens? [⟨.minus, "-", place⟩, ⟨v.kind, lexeme, position⟩, ⟨.endOfLine, "", stop⟩] =
      .ok (.expression (.unary .negate (.literal v position) place) place) := by
  have hliteral : IsExpr .operand 1 [⟨v.kind, lexeme, position⟩]
      (.literal v position) := .of_primary (.literal rfl) _
  have hoperand : IsExpr .operand 0 [⟨.minus, "-", place⟩, ⟨v.kind, lexeme, position⟩]
      (.unary .negate (.literal v position) place) :=
    .unary (t := ⟨.minus, "-", place⟩) rfl (by decide) hliteral
  have hexpr : IsExpr .disjunction 0 _ _ :=
    .single rfl (.single rfl (.single rfl (.single rfl (.single rfl hoperand))))
  have hafter : LineEnds [⟨.endOfLine, "", stop⟩] := List.forall_mem_singleton.2 rfl
  exact (IsLine.statement (.expression hexpr)).ofTokens? (by cases v <;> rfl) .nil hafter

/-- The text of an integer that is not negative is a literal. -/
theorem ofTokens_text_of_nonneg {n : Int64} (hn : 0 ≤ n.toInt) (line : ℕ) :
    ofTokens (Token.scan (Value.integer n).text line) = .expression (.literal
      (.integer (String.ofList (Numeral.digits n.toInt.natAbs))) ⟨line, 1⟩) ⟨line, 1⟩ := by
  rw [Value.text, Numeral.ofInt, if_neg hn.not_gt,
    Token.scan_of_rule (Token.rule_digits _) fun hkind => by cases hkind]
  exact (ofTokens_valid_iff.2 (ofTokens?_literal (v := .integer _))).1

/-- The text of a negative integer is a literal behind an operator. -/
theorem ofTokens_text_of_neg {n : Int64} (hn : n.toInt < 0) (line : ℕ) :
    ofTokens (Token.scan (Value.integer n).text line) = .expression (.unary .negate (.literal
      (.integer (String.ofList (Numeral.digits n.toInt.natAbs))) ⟨line, 2⟩) ⟨line, 1⟩)
        ⟨line, 1⟩ := by
  rw [Value.text, Numeral.ofInt, if_pos hn,
    Token.scan_minus_of_rule (Token.rule_digits _) fun hkind => by cases hkind]
  exact (ofTokens_valid_iff.2 (ofTokens?_minus_literal (v := .integer _))).1

end Statement

/-! ## Values of lines -/

namespace Expr

variable {env : Environment} {place position : Position}

theorem eval_digits (n : ℕ) :
    (literal (.integer (String.ofList (Numeral.digits n))) position).eval env =
      locate position (Value.ofInt? n) := by
  rw [eval, Value.ofLiteral?_digits]

/-- Digits with a minus sign in front of them, if the digits alone are in range. -/
theorem eval_minus_digits {n : Int64} (hn : n.toInt < 0) (hmin : n ≠ Int64.minValue) :
    (unary .negate (literal (.integer (String.ofList (Numeral.digits n.toInt.natAbs))) position)
      place).eval env = .ok (.integer n) := by
  have hge := n.le_toInt
  have hne : n.toInt ≠ -2 ^ 63 := fun h => hmin (Int64.toInt_inj.1 h)
  obtain ⟨w, hw, hvalue⟩ := Value.ofInt?_of_inRange (n := n.toInt.natAbs) ⟨by omega, by omega⟩
  have hnegated : UnaryOperator.negate.apply (.integer w) = .ok (.integer n) := by
    have hneg : -w.toInt = n.toInt := by omega
    rw [UnaryOperator.apply, hneg, Value.ofInt?, Numeral.fit?_toInt]
  rw [eval, eval_digits, hvalue]
  show locate place (UnaryOperator.negate.apply (.integer w)) = _
  rw [hnegated, locate]

/-- The digits of the least integer are out of range before they are negated. -/
theorem eval_minus_digits_minValue :
    (unary .negate (literal (.integer (String.ofList
      (Numeral.digits Int64.minValue.toInt.natAbs))) position) place).eval env =
        .error ⟨.overflow, position⟩ := by
  rw [eval, eval_digits, Value.ofInt?_of_not_inRange fun h => absurd h.2 (by decide)]
  rfl

end Expr

namespace Statement

variable {n : Int64} {limit : Option UInt64} {bound : ℕ} {s : State}

theorem run_text_of_ne (hmin : n ≠ Int64.minValue) (line : ℕ) :
    (ofTokens (Token.scan (Value.integer n).text line)).run limit bound s =
      some ⟨.ok (.next (some (.integer n))), s⟩ := by
  rcases lt_or_ge n.toInt 0 with hn | hn
  · rw [ofTokens_text_of_neg hn, run, Expr.eval_minus_digits hn hmin]
  · have hvalue : Value.ofInt? n.toInt.natAbs = .ok (.integer n) := by
      rw [Int.natAbs_of_nonneg hn, Value.ofInt?, Numeral.fit?_toInt]
    rw [ofTokens_text_of_nonneg hn, run, Expr.eval_digits, hvalue, locate]

theorem run_text_minValue (line : ℕ) :
    (ofTokens (Token.scan (Value.integer Int64.minValue).text line)).run limit bound s =
      some ⟨.error ⟨.overflow, ⟨line, 2⟩⟩, s⟩ := by
  rw [ofTokens_text_of_neg (by decide), run, Expr.eval_minus_digits_minValue]

end Statement

/-- **Integers read back as they were written.**  A literal of any length has its decimal value, or
is refused if that is out of range; `int` undoes `str`; and the text of an integer, as a line of a
program, evaluates to the integer.  The least integer is the exception to the last of these, because
its digits are out of range without their sign. -/
theorem integers_read_back :
    (∀ ds : List Char, ds ≠ [] → (∀ c ∈ ds, c.isDigit = true) →
      (Numeral.decimal ds ≤ 2 ^ 63 - 1 → ∃ n : Int64, n.toInt = Numeral.decimal ds ∧
        Value.ofLiteral? (.integer (String.ofList ds)) = .ok (.integer n)) ∧
      (2 ^ 63 - 1 < Numeral.decimal ds →
        Value.ofLiteral? (.integer (String.ofList ds)) = .error .overflow)) ∧
    (∀ n : Int64, (callFunction "str" [.integer n] >>= fun text => callFunction "int" [text]) =
      .ok (.integer n)) ∧
    ∀ (n : Int64) (line : ℕ) (limit : Option UInt64) (bound : ℕ) (s : State),
      (n ≠ Int64.minValue →
        (Statement.ofTokens (Token.scan (Value.integer n).text line)).run limit bound s =
          some ⟨.ok (.next (some (.integer n))), s⟩) ∧
      (n = Int64.minValue →
        (Statement.ofTokens (Token.scan (Value.integer n).text line)).run limit bound s =
          some ⟨.error ⟨.overflow, ⟨line, 2⟩⟩, s⟩) := by
  refine ⟨fun ds hne hdigits => ?_, fun n => ?_, fun n line limit bound s => ⟨?_, ?_⟩⟩
  · rw [← Numeral.value_eq_decimal, Value.ofLiteral?_of_isDigit hne hdigits]
    refine ⟨fun hle => Value.ofInt?_of_inRange ⟨by omega, by omega⟩,
      fun hlt => Value.ofInt?_of_not_inRange fun hrange => ?_⟩
    have := hrange.2
    omega
  · rw [callFunction_str_bind, callFunction_int_str]
  · exact fun hmin => Statement.run_text_of_ne hmin line
  · rintro rfl
    exact Statement.run_text_minValue line

/-- Leading zeros, the first number that is out of range, and the two ends of the range as lines of
a program. -/
theorem integers_read_back_bounds :
    Value.ofLiteral? (.integer "007") = .ok (.integer 7) ∧
      Value.ofLiteral? (.integer "9223372036854775808") = .error .overflow ∧
      (Statement.ofTokens (Token.scan "9223372036854775807" 1)).run none 0 ⟨.empty, #[]⟩ =
        some ⟨.ok (.next (some (.integer Int64.maxValue))), ⟨.empty, #[]⟩⟩ ∧
      (Statement.ofTokens (Token.scan "-9223372036854775808" 1)).run none 0 ⟨.empty, #[]⟩ =
        some ⟨.error ⟨.overflow, ⟨1, 2⟩⟩, ⟨.empty, #[]⟩⟩ := by
  obtain ⟨hliteral, -, hline⟩ := integers_read_back
  have hdigits : ∀ c ∈ ['0', '0', '7'], c.isDigit = true := List.all_eq_true.1 rfl
  have hdigits' : ∀ c ∈ "9223372036854775808".toList, c.isDigit = true := List.all_eq_true.1 rfl
  obtain ⟨n, hn, hseven⟩ := (hliteral ['0', '0', '7'] (by decide) hdigits).1 (by decide)
  obtain rfl : n = 7 := Int64.toInt_inj.1 hn
  refine ⟨hseven, (hliteral "9223372036854775808".toList (by decide) hdigits').2 (by decide),
    (hline Int64.maxValue 1 none 0 _).1 (by decide), (hline Int64.minValue 1 none 0 _).2 rfl⟩

end DarjaLang
