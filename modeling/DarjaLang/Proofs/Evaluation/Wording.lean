import DarjaLang.Proofs.Evaluation.Origin
import DarjaLang.Proofs.Grammar.Statement.Nodes
import DarjaLang.Proofs.Reading.Wording

/-!
# The wording of trouble

Trouble is worded with names, types, operators and numbers, none of which break a line.  There is
one exception: a conversion that fails shows the string it was given, as it is.

* `EvalError.quoted` is the string that a cause shows, and `EvalError.BreaksAsQuoted` says that the
  wording has the newlines of that string and no others.
* `Statement.breaksAsQuoted_of_run` says it of all trouble that the statement of a text can come
  to.
-/

set_option autoImplicit false

namespace DarjaLang

open Grammar

/-! ## Parts of a wording -/

@[simp] theorem newlines_toString (n : Nat) : newlines (toString n) = 0 := newlines_repr n

@[simp] theorem Builtin.newlines_name (b : Builtin) : newlines b.name = 0 := by
  cases b <;> rfl

theorem Builtin.newlines_of_mem_expectations {expected : String} (h : expected ∈ expectations) :
    newlines expected = 0 := by
  have hall : ∀ expected ∈ expectations, newlines expected = 0 := by decide
  exact hall expected h

@[simp] theorem Arity.newlines_text (arity : Arity) : newlines arity.text = 0 := by
  cases arity with
  | exactly n => exact newlines_repr n
  | atLeast n =>
    have hfront : newlines "at least " = 0 := rfl
    rw [text, newlines_append, hfront, newlines_toString]

namespace EvalError

/-- The string that a failed conversion shows.  Other causes show none. -/
def quoted : EvalError → String
  | invalidArgument (.notInteger s) | invalidArgument (.notNumber s) => s
  | _ => ""

/-- The wording has the newlines of the string that it shows, and no others. -/
def BreaksAsQuoted (e : EvalError) : Prop := newlines e.message = newlines e.quoted

theorem newlines_typeMismatch (why : Mismatch) :
    newlines (typeMismatch why).message = newlines why.message := by
  show newlines ("Type mismatch: " ++ why.message ++ ".") = _
  rw [newlines_between rfl rfl]

theorem newlines_invalidArgument (why : BadArgument) :
    newlines (invalidArgument why).message = newlines why.message := by
  show newlines ("Invalid argument: " ++ why.message ++ ".") = _
  rw [newlines_between rfl rfl]

/-- Mismatches are worded with the names of types, operators and functions. -/
theorem OfOperands.newlines_mismatch {why : Mismatch} (h : (typeMismatch why).OfOperands) :
    newlines why.message = 0 := by
  cases why with
  | notNumber found =>
    have hfront : newlines "expected a number, found " = 0 := rfl
    show newlines ("expected a number, found " ++ found.name) = 0
    simp [hfront]
  | notBoolean found =>
    have hfront : newlines "expected a boolean, found " = 0 := rfl
    show newlines ("expected a boolean, found " ++ found.name) = 0
    simp [hfront]
  | notNegatable found =>
    have hfront : newlines "cannot negate a " = 0 := rfl
    show newlines ("cannot negate a " ++ found.name) = 0
    simp [hfront]
  | operands op left right =>
    have hfront : newlines "cannot apply '" = 0 := rfl
    have hto : newlines "' to " = 0 := rfl
    have hand : newlines " and " = 0 := rfl
    show newlines ("cannot apply '" ++ op.symbol ++ "' to " ++ left.name ++ " and " ++
      right.name) = 0
    simp [hfront, hto, hand]
  | argument function expected found =>
    obtain ⟨⟨b, rfl⟩, hexpected⟩ := h
    have hexpects : newlines "() expects " = 0 := rfl
    have hfound : newlines ", found " = 0 := rfl
    show newlines (b.name ++ "() expects " ++ expected ++ ", found " ++ found.name) = 0
    simp [hexpects, hfound, Builtin.newlines_of_mem_expectations hexpected]

/-- What is wrong with an argument is worded with the argument. -/
theorem OfOperands.newlines_badArgument {why : BadArgument} (h : (invalidArgument why).OfOperands) :
    newlines why.message = newlines (invalidArgument why).quoted := by
  cases why with
  | notFinite x =>
    show newlines ("cannot convert " ++ Binary64.shortest x ++ " to an integer") = newlines ""
    rw [newlines_between rfl rfl, Binary64.newlines_shortest]
    rfl
  | negativeRoot v =>
    have hfront : newlines "cannot take the square root of " = 0 := rfl
    show newlines ("cannot take the square root of " ++ v.text) = newlines ""
    rw [newlines_append, hfront, Value.newlines_text_of_isNumeric h]
    rfl
  | notInteger s =>
    show newlines ("'" ++ s ++ "' is not an integer") = newlines s
    rw [newlines_between rfl rfl]
  | notNumber s =>
    show newlines ("'" ++ s ++ "' is not a number") = newlines s
    rw [newlines_between rfl rfl]

/-! ## Causes -/

/-- What is wrong with operands breaks lines only where a conversion shows a string. -/
theorem OfOperands.breaksAsQuoted {e : EvalError} (h : e.OfOperands) : e.BreaksAsQuoted := by
  cases e with
  | typeMismatch why => exact (newlines_typeMismatch why).trans h.newlines_mismatch
  | divisionByZero => exact rfl
  | overflow => exact rfl
  | invalidArgument why => exact (newlines_invalidArgument why).trans h.newlines_badArgument
  | _ => exact h.elim

/-- What is wrong with a name is worded with the name. -/
theorem OfName.breaksAsQuoted {e : EvalError} {name : String} (h : e.OfName name)
    (hname : newlines name = 0) : e.BreaksAsQuoted := by
  cases e with
  | unboundVariable other =>
    cases h
    show newlines ("Unbound variable '" ++ name ++ "'.") = newlines ""
    rw [newlines_between rfl rfl, hname]
    rfl
  | unknownFunction other =>
    cases h
    show newlines ("Unknown function '" ++ name ++ "'.") = newlines ""
    rw [newlines_between rfl rfl, hname]
    rfl
  | argumentCount other expected found =>
    cases h
    have hfront : newlines "'" = 0 := rfl
    have htakes : newlines "' takes " = 0 := rfl
    have hbut : newlines " argument(s) but " = 0 := rfl
    have hbehind : newlines " were given." = 0 := rfl
    show newlines ("'" ++ name ++ "' takes " ++ expected.text ++ " argument(s) but " ++
      toString found ++ " were given.") = newlines ""
    simp [hfront, htakes, hbut, hbehind, hname]
    rfl
  | _ => exact h.elim

theorem breaksAsQuoted_iterationLimit (n : UInt64) : (iterationLimit n).BreaksAsQuoted := by
  show newlines ("Loop exceeded the limit of " ++ toString n.toNat ++ " iterations.") = newlines ""
  rw [newlines_between rfl rfl, newlines_toString]
  rfl

end EvalError

/-! ## Statements -/

/-- Trouble at a node is worded with the token that the node comes from. -/
theorem Expr.Raises.breaksAsQuoted {node : Expr} {trouble : Trouble} (h : node.Raises trouble)
    {t : Token} (ht : t.InLine) (hheads : t.Heads node) : trouble.cause.BreaksAsQuoted := by
  obtain ⟨-, hcause | ⟨name, hname, hcause⟩⟩ := h
  · exact hcause.breaksAsQuoted
  · exact hcause.breaksAsQuoted (ht.name name (hheads.name name hname))

/-- Trouble in a statement is worded with tokens that it has been read from. -/
theorem Statement.Blames.breaksAsQuoted {st : Statement} {p : List Token} {trouble : Trouble}
    (h : st.Blames trouble) (hst : st.WrittenIn p) (hp : ∀ t ∈ p, t.InLine)
    (hread : ∀ inner : Statement, inner.Part st → inner.IsValid) :
    trouble.cause.BreaksAsQuoted := by
  cases h with
  | expression hinner he hblames =>
    obtain ⟨node, hnode, hraises⟩ := hblames
    obtain ⟨t, ht, hheads⟩ := (hst _ hinner).2 _ he node hnode
    exact hraises.breaksAsQuoted (hp t ht) hheads
  | limit => exact EvalError.breaksAsQuoted_iterationLimit _
  | unread hinner => exact absurd rfl (hread _ hinner _)

/-- **Trouble is worded in one line, but for the string that a failed conversion shows.** -/
theorem Statement.breaksAsQuoted_of_run {text : String} {number : Nat} {limit : Option UInt64}
    {bound : Nat} {s s' : State} {trouble : Trouble}
    (hrun : (Statement.ofTokens (Token.scan text number)).run limit bound s =
      some ⟨.error trouble, s'⟩) :
    trouble.cause.BreaksAsQuoted := by
  cases hread : Statement.ofTokens? (Token.scan text number) with
  | error complaint =>
    rw [ofTokens_eq_invalid_iff.2 hread, run] at hrun
    cases hrun
    exact newlines_message_of_ofTokens? hread
  | ok st =>
    rw [(ofTokens_valid_iff.2 hread).1] at hrun
    exact (blames_of_run hrun).breaksAsQuoted (writtenIn_of_ofTokens? hread)
      (fun t ht => Token.inLine_of_mem_scan ht) fun inner => isValid_of_part hread

end DarjaLang
