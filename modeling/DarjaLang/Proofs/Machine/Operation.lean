import DarjaLang.Builtin
import DarjaLang.Proofs.Machine.Fault
import DarjaLang.Proofs.Value.Arithmetic

/-!
# Operators and builtin functions on a machine

* The instructions `negate` and `divide` fault where the integers have no result.  They are only
  carried out behind a test that there is one.
* The routines for arithmetic, comparisons and connectives are given an operator of any family, and
  fault if it is not one of theirs.  `applyBinary` sends each operator to its own routine.
* The builtin functions read their first argument, and fault if there is none.  `callFunction`
  counts the arguments before.
* `applyUnary_eq`, `applyBinary_eq` and `callFunction_eq` say that none of this ever faults.
-/

set_option autoImplicit false

namespace DarjaLang

namespace Machine

open Attempt

/-! ## Instructions on integers -/

/-- The negative of an integer.  The least integer has none. -/
def negate (n : Int64) : Machine Int64 :=
  if n = Int64.minValue then .error .overflow else .ok (-n)

/-- The division whose quotient is out of range. -/
def quotientOverflows (a b : Int64) : Bool := a == Int64.minValue && b == -1

/-- A division, of which `op` is the quotient or the remainder. -/
def divide (op : Int64 → Int64 → Int64) (a b : Int64) : Machine Int64 :=
  if b = 0 then .error .zeroDivisor
  else if quotientOverflows a b then .error .overflow
  else .ok (op a b)

/-- The negative of an integer, if there is one. -/
def checkedNegate (n : Int64) : Machine (Option Int64) :=
  if n = Int64.minValue then .ok none else some <$> negate n

/-- The absolute value of an integer, if there is one. -/
def checkedAbs (n : Int64) : Machine (Option Int64) :=
  if n < 0 then checkedNegate n else .ok (some n)

/-- The result of a division, if there is one. -/
def checkedDivide (op : Int64 → Int64 → Int64) (a b : Int64) : Machine (Option Int64) :=
  if b = 0 ∨ quotientOverflows a b then .ok none else some <$> divide op a b

/-- Only the least integer has no negative. -/
theorem toInt_neg_of_ne_minValue {n : Int64} (h : n ≠ Int64.minValue) :
    (-n).toInt = -n.toInt := by
  have hne : n.toInt ≠ -2 ^ 63 := fun heq => h (Int64.toInt_inj.1 heq)
  have hle := n.le_toInt
  have hlt := n.toInt_lt
  rw [Int64.toInt_neg, Int.bmod_def]
  omega

theorem checkedNegate_eq (n : Int64) : checkedNegate n = .ok (Numeral.fit? (-n.toInt)) := by
  rw [checkedNegate]
  split
  · next h =>
    rw [h]
    rfl
  · next h =>
    rw [negate, if_neg h, ← toInt_neg_of_ne_minValue h, Numeral.fit?_toInt]
    rfl

theorem checkedAbs_eq (n : Int64) : checkedAbs n = .ok (Numeral.fit? n.toInt.natAbs) := by
  have hneg : n < 0 ↔ n.toInt < 0 := Int64.lt_iff_toInt_lt
  rw [checkedAbs]
  split
  · next h => rw [checkedNegate_eq, Int.ofNat_natAbs_of_nonpos (Int.le_of_lt (hneg.1 h))]
  · next h => rw [Int.natAbs_of_nonneg (Int.not_lt.1 fun hlt => h (hneg.2 hlt)), Numeral.fit?_toInt]

/-- Behind the tests, a division does not fault. -/
theorem checkedDivide_eq (op : Int64 → Int64 → Int64) (a : Int64) {b : Int64} (hb : b ≠ 0) :
    checkedDivide op a b = .ok (if quotientOverflows a b then none else some (op a b)) := by
  rw [checkedDivide, divide, if_neg hb]
  by_cases h : quotientOverflows a b = true
  · rw [if_pos (.inr h), if_pos h]
  · rw [if_neg (not_or.2 ⟨hb, h⟩), if_neg h, if_neg h]
    rfl

example : divide (· % ·) Int64.minValue (-1) = .error .overflow := rfl

theorem quotient_eq (a b : Int64) :
    (if quotientOverflows a b then none else some (a / b)) =
      Numeral.fit? (a.toInt.tdiv b.toInt) := by
  split
  · next h =>
    obtain ⟨ha, hb⟩ := Bool.and_eq_true_iff.1 h
    rw [eq_of_beq ha, eq_of_beq hb]
    rfl
  · next h =>
    have hdiv : (a / b).toInt = a.toInt.tdiv b.toInt := by
      refine toInt_div_eq_tdiv fun ⟨ha, hb⟩ => h ?_
      rw [ha, hb]
      rfl
    rw [← hdiv, Numeral.fit?_toInt]

/-- A remainder is in range, but it is only there together with its quotient. -/
theorem remainder_eq (a b : Int64) :
    (if quotientOverflows a b then none else some (a % b)) =
      (Numeral.fit? (a.toInt.tdiv b.toInt)).bind fun _ => Numeral.fit? (a.toInt.tmod b.toInt) := by
  rw [← quotient_eq, ← Int64.toInt_mod, Numeral.fit?_toInt]
  split <;> rfl

/-! ## Arithmetic -/

/-- An integer that has to be there. -/
def present : Option Int64 → Except EvalError Value
  | some n => .ok (.integer n)
  | none => .error .overflow

theorem present_fit? (n : Int) : present (Numeral.fit? n) = Value.ofInt? n := by
  rw [Value.ofInt?]
  cases Numeral.fit? n <;> rfl

/-- The result of an instruction on integers as that of an operator. -/
def orOverflow (x : Machine (Option Int64)) : Attempt EvalError Value := .mk (x.map present)

/-- Arithmetic on two integers. -/
def onIntegers (op : BinaryOperator) (a b : Int64) : Attempt EvalError Value :=
  match op with
  | .arithmetic .add => orOverflow (.ok (Numeral.fit? (a.toInt + b.toInt)))
  | .arithmetic .subtract => orOverflow (.ok (Numeral.fit? (a.toInt - b.toInt)))
  | .arithmetic .multiply => orOverflow (.ok (Numeral.fit? (a.toInt * b.toInt)))
  | .arithmetic .divide =>
    if b = 0 then fail .divisionByZero else orOverflow (checkedDivide (· / ·) a b)
  | .arithmetic .remainder =>
    if b = 0 then fail .divisionByZero else orOverflow (checkedDivide (· % ·) a b)
  | _ => fault (.operator .integers)

/-- A result on floats, which finite operands must have in range. -/
def finite (x y result : Float) : Attempt EvalError Value :=
  if !result.isFinite && x.isFinite && y.isFinite then fail .overflow else return .float result

/-- Arithmetic on two floats. -/
def onFloats (op : BinaryOperator) (x y : Float) : Attempt EvalError Value :=
  match op with
  | .arithmetic .add => finite x y (x + y)
  | .arithmetic .subtract => finite x y (x - y)
  | .arithmetic .multiply => finite x y (x * y)
  | .arithmetic .divide => if y == 0.0 then fail .divisionByZero else finite x y (x / y)
  | .arithmetic .remainder =>
    if y == 0.0 then fail .divisionByZero else finite x y (Binary64.remainder x y)
  | _ => fault (.operator .floats)

/-- The complaint about the operands of an operator. -/
def badOperands (op : BinaryOperator) (a b : Value) : EvalError :=
  .typeMismatch (.operands op a.type b.type)

/-- The routine for arithmetic. -/
def compute (op : BinaryOperator) : Value → Value → Attempt EvalError Value
  | .integer a, .integer b => onIntegers op a b
  | .string s, .string t =>
    if op = .arithmetic .add then return .string (s ++ t)
    else fail (badOperands op (.string s) (.string t))
  | a, b =>
    if a.isNumeric && b.isNumeric then do
      let x ← sure a.toFloat?
      let y ← sure b.toFloat?
      onFloats op x y
    else fail (badOperands op a b)

theorem orOverflow_fit? (n : Int) : orOverflow (.ok (Numeral.fit? n)) = sure (Value.ofInt? n) :=
  congrArg sure (present_fit? n)

/-- A division on a machine, behind the test for zero. -/
theorem orOverflow_checkedDivide (op : Int64 → Int64 → Int64) {a b : Int64} (hb : b ≠ 0)
    {r : Option Int64} (h : (if quotientOverflows a b then none else some (op a b)) = r) :
    orOverflow (checkedDivide op a b) = sure (present r) := by
  rw [checkedDivide_eq op a hb, h]
  rfl

/-- On the operators of arithmetic, the routine for integers does not fault. -/
theorem onIntegers_eq (op : Arithmetic) (a b : Int64) :
    onIntegers (.arithmetic op) a b = sure (op.onIntegers a.toInt b.toInt) := by
  have hzero : b.toInt = 0 ↔ b = 0 := Int64.toInt_inj (y := 0)
  cases op with
  | divide =>
    rw [onIntegers, Arithmetic.onIntegers]
    by_cases hb : b = 0
    · rw [if_pos hb, if_pos (hzero.2 hb)]
      rfl
    · rw [if_neg hb, if_neg (mt hzero.1 hb), orOverflow_checkedDivide _ hb (quotient_eq a b),
        present_fit?]
  | remainder =>
    rw [onIntegers, Arithmetic.onIntegers]
    by_cases hb : b = 0
    · rw [if_pos hb, if_pos (hzero.2 hb)]
      rfl
    · rw [if_neg hb, if_neg (mt hzero.1 hb), orOverflow_checkedDivide _ hb (remainder_eq a b),
        ← present_fit?, ← present_fit?]
      cases Numeral.fit? (a.toInt.tdiv b.toInt) <;> rfl
  | _ => exact orOverflow_fit? _

/-- On the operators of arithmetic, the routine for floats does not fault. -/
theorem onFloats_eq (op : Arithmetic) (x y : Float) :
    onFloats (.arithmetic op) x y = sure (op.onFloats x y) := by
  have hfinite : ∀ r, finite x y r =
      sure (if !r.isFinite && x.isFinite && y.isFinite then .error .overflow
        else .ok (.float r)) := fun r => (apply_ite sure _ _ _).symm
  cases op with
  | divide | remainder =>
    rw [onFloats, hfinite]
    exact (apply_ite sure _ _ _).symm
  | _ => exact hfinite _

/-- On the operators of arithmetic, the routine for it does not fault. -/
theorem compute_eq (op : Arithmetic) (a b : Value) :
    compute (.arithmetic op) a b = sure (op.apply a b) := by
  rw [compute.eq_def]
  split
  · exact onIntegers_eq op _ _
  · cases op <;> rfl
  · next hintegers hstrings =>
    rw [Arithmetic.apply.eq_3 op _ _ hintegers fun s t _ => hstrings s t]
    split
    · exact sure_bind fun x => sure_bind fun y => onFloats_eq op x y
    · rfl

/-! ## Comparisons -/

/-- Whether an equality holds, or its negation. -/
def equality (op : BinaryOperator) (same : Bool) : Attempt EvalError Bool :=
  match op with
  | .comparison .equal => return same
  | .comparison .notEqual => return !same
  | _ => fault (.operator .equality)

/-- How two values are ordered, for an operator that asks for it. -/
def order (op : BinaryOperator) : Value → Value → Attempt EvalError (Option Ordering)
  | .integer a, .integer b => return some (compare a.toInt b.toInt)
  | .string s, .string t => return some (compare s t)
  | a, b =>
    if a.isNumeric && b.isNumeric then do
      let x ← sure a.toFloat?
      let y ← sure b.toFloat?
      return Binary64.order? x y
    else fail (badOperands op a b)

/-- Whether an order is one that the operator asks for. -/
def accepts (op : BinaryOperator) (o : Ordering) : Attempt EvalError Bool :=
  match op with
  | .comparison .less => return o == .lt
  | .comparison .greater => return o == .gt
  | .comparison .lessEqual => return o != .gt
  | .comparison .greaterEqual => return o != .lt
  | _ => fault (.operator .order)

/-- The routine for comparisons. -/
def compareValues (op : BinaryOperator) (a b : Value) : Attempt EvalError Value :=
  if op = .comparison .equal ∨ op = .comparison .notEqual then
    .boolean <$> equality op (a.equals b)
  else do
    match ← order op a b with
    | none => return .boolean false
    | some o => .boolean <$> accepts op o

theorem order_eq (op : Comparison) (a b : Value) :
    order (.comparison op) a b = sure (op.order? a b) := by
  rw [order.eq_def]
  split
  · rfl
  · rfl
  · next hintegers hstrings =>
    rw [Comparison.order?.eq_3 op _ _ hintegers hstrings]
    split
    · exact sure_bind fun x => sure_bind fun y => rfl
    · rfl

theorem compareValues_eq (op : Comparison) (a b : Value) :
    compareValues (.comparison op) a b = sure (op.apply a b) := by
  cases op with
  | equal | notEqual => rfl
  | _ =>
    rw [compareValues, order_eq]
    refine sure_bind fun o => ?_
    cases o <;> rfl

/-! ## Connectives and the operators as a whole -/

/-- The routine for connectives. -/
def join (op : BinaryOperator) (a b : Value) : Attempt EvalError Value := do
  let p ← sure a.toBoolean?
  let q ← sure b.toBoolean?
  match op with
  | .connective .and => return .boolean (p && q)
  | .connective .or => return .boolean (p || q)
  | _ => fault (.operator .connectives)

theorem join_eq (op : Connective) (a b : Value) :
    join (.connective op) a b = sure (op.apply a b) :=
  sure_bind fun p => sure_bind fun q => by cases op <;> rfl

/-- Sends an operator to its routine. -/
def applyBinary (op : BinaryOperator) (a b : Value) : Attempt EvalError Value :=
  match op with
  | .arithmetic _ => compute op a b
  | .comparison _ => compareValues op a b
  | .connective _ => join op a b

/-- **No binary operator faults**: each routine is only given the operators it is meant for, and
each instruction only operands for which it has a result. -/
theorem applyBinary_eq (op : BinaryOperator) (a b : Value) :
    applyBinary op a b = sure (op.apply a b) := by
  cases op with
  | arithmetic op => exact compute_eq op a b
  | comparison op => exact compareValues_eq op a b
  | connective op => exact join_eq op a b

example : join (.arithmetic .add) (.boolean true) (.boolean false) =
    fault (.operator .connectives) := rfl

/-- An operator in front of a value. -/
def applyUnary : UnaryOperator → Value → Attempt EvalError Value
  | .negate, .integer n => orOverflow (checkedNegate n)
  | .negate, .float x => return .float (-x)
  | .negate, v => fail (.typeMismatch (.notNegatable v.type))
  | .not, v => do
    let b ← sure v.toBoolean?
    return .boolean (!b)

/-- **No operator in front of a value faults.** -/
theorem applyUnary_eq (op : UnaryOperator) (v : Value) : applyUnary op v = sure (op.apply v) := by
  cases op with
  | negate =>
    cases v with
    | integer n =>
      rw [applyUnary, checkedNegate_eq, orOverflow_fit?]
      rfl
    | _ => rfl
  | not => exact sure_bind fun b => rfl

/-! ## Builtin functions -/

/-- Reads the first argument. -/
def first : List Value → Attempt EvalError Value
  | [] => fault .argument
  | v :: _ => return v

/-- The absolute value of a number. -/
def absoluteValue : Value → Attempt EvalError Value
  | .integer n => orOverflow (checkedAbs n)
  | .float x => return .float x.abs
  | v => fail (Builtin.abs.wrongType "a number" v)

/-- What a function makes of its arguments.  Only the last two can do without any. -/
def call (b : Builtin) (arguments : List Value) : Attempt EvalError Value :=
  match b with
  | .abs => first arguments >>= absoluteValue
  | .sqrt => first arguments >>= fun v => sure (Builtin.squareRoot v)
  | .int => first arguments >>= fun v => sure (Builtin.toInteger v)
  | .float => first arguments >>= fun v => sure (Builtin.toFloating v)
  | .str => first arguments >>= fun v => return .string v.text
  | .len => first arguments >>= fun v => sure (Builtin.length v)
  | .type => first arguments >>= fun v => return .string v.type.name
  | .min => sure (Extremum.least.applyAll "min" arguments)
  | .max => sure (Extremum.greatest.applyAll "max" arguments)

/-- Calls a function by its name: the name is looked up first, then the arguments are counted. -/
def callFunction (name : String) (arguments : List Value) : Attempt EvalError Value :=
  match Builtin.ofName? name with
  | none => fail (.unknownFunction name)
  | some b =>
    if b.arity.admits arguments.length then call b arguments
    else fail (.argumentCount name b.arity arguments.length)

theorem absoluteValue_eq (v : Value) : absoluteValue v = sure (Builtin.absoluteValue v) := by
  cases v with
  | integer n =>
    rw [absoluteValue, checkedAbs_eq, orOverflow_fit?]
    rfl
  | _ => rfl

/-- With an argument, no function faults. -/
theorem call_cons (b : Builtin) (v : Value) (rest : List Value) :
    call b (v :: rest) = sure (b.apply v rest) := by
  cases b with
  | abs => exact absoluteValue_eq v
  | _ => rfl

example : call .len [] = fault .argument := rfl

/-- No function can be called without an argument. -/
theorem admits_zero (b : Builtin) : b.arity.admits 0 = false := by
  cases b <;> rfl

/-- **No call faults**: arguments are only read once there is one. -/
theorem callFunction_eq (name : String) (arguments : List Value) :
    callFunction name arguments = sure (DarjaLang.callFunction name arguments) := by
  rw [callFunction, DarjaLang.callFunction]
  cases Builtin.ofName? name with
  | none => rfl
  | some b =>
    cases arguments with
    | nil => exact if_neg (ne_true_of_eq_false (admits_zero b))
    | cons v rest =>
      dsimp only
      split
      · exact call_cons b v rest
      · rfl

end Machine

end DarjaLang
