import DarjaLang.Syntax.Basic

/-!
# Parsers over token lists

A parser reads one thing off the front of a token list and hands back the tokens behind it, or
complains.  That it consumes at least one token whenever it succeeds is part of the type: this is
what ends every loop that runs a parser again and again.

* `Parser.separated` reads things with commas between them.
* `Parser.chain` reads operands with operators between them and groups them to the left.
* `Parser.deeper` limits how deep constructs may be nested: each level of nesting is given the
  parser for the level inside it, and the last level is given none.
-/

set_option autoImplicit false

namespace DarjaLang

/-- A complaint about a line. -/
abbrev Complaint := Diagnostic ParseError

/-- What was read, or a complaint. -/
abbrev Reading := Except Complaint

/-- How many constructs may be nested inside one another: blocks, parentheses, argument lists and
operators in front of an operand. -/
def maxNesting : Nat := 64

/-- How high an operator node may be. -/
def maxOperatorHeight : Nat := 256

/-- Reads one `α` off the front of a token list. -/
structure Parser (α : Type) where
  run : List Token → Reading (α × List Token)
  consumes : ∀ {ts : List Token} {a : α} {rest : List Token},
    run ts = .ok (a, rest) → rest.length < ts.length

namespace Parser

variable {α β : Type}

/-- The tokens from the first one on that does not end a line. -/
def skipLineEnds (ts : List Token) : List Token :=
  ts.dropWhile fun t => t.kind matches .endOfLine

theorem length_skipLineEnds_le (ts : List Token) : (skipLineEnds ts).length ≤ ts.length :=
  (List.dropWhile_suffix _).length_le

/-! ## Nesting -/

/-- The parser for what a token encloses, if there is a level of nesting left; if not, the token
is complained about. -/
def deeper (inner : Option (Parser α)) (opening : Position) : Reading (Parser α) :=
  match inner with
  | none => .error ⟨.nestingTooDeep, opening⟩
  | some p => .ok p

/-! ## Lists -/

/-- One or more things with commas between them. -/
def separatedFrom (item : Parser α) (ts : List Token) : Reading (List α × List Token) :=
  match _run : item.run ts with
  | .error e => .error e
  | .ok (a, []) => .ok ([a], [])
  | .ok (a, t :: behind) =>
    match t.kind with
    | .comma => (separatedFrom item behind).map fun (as, rest) => (a :: as, rest)
    | _ => .ok ([a], t :: behind)
termination_by ts.length
decreasing_by
  have := item.consumes _run
  simp only [List.length_cons] at this
  omega

theorem length_lt_of_separatedFrom (item : Parser α) {ts : List Token} {as : List α}
    {rest : List Token} (h : separatedFrom item ts = .ok (as, rest)) :
    rest.length < ts.length := by
  fun_induction separatedFrom item ts generalizing as rest with
  | case1 => cases h
  | case2 ts a hrun => cases h; exact item.consumes hrun
  | case3 ts a t behind hrun _ ih =>
    have hlt := item.consumes hrun
    cases hrest : separatedFrom item behind with
    | error e => rw [hrest] at h; cases h
    | ok r =>
      rw [hrest] at h
      cases h
      have := ih hrest
      simp only [List.length_cons] at hlt
      omega
  | case4 ts a t behind hrun => cases h; exact item.consumes hrun

/-- One or more things with commas between them. -/
def separated (item : Parser α) : Parser (List α) :=
  ⟨separatedFrom item, length_lt_of_separatedFrom item⟩

/-! ## Chains of operators -/

/-- Goes on with a chain whose part so far is `left`, as long as an accepted operator follows.
`height` is counted along the chain and is not measured on `left` again.  The operator that takes it
over the limit is the one complained about. -/
def chainFrom (accepts : BinaryOperator → Bool) (operand : Parser Expr) (left : Expr)
    (height : Nat) (ts : List Token) : Reading (Expr × List Token) :=
  match ts with
  | [] => .ok (left, [])
  | t :: behind =>
    match t.kind.operator?.filter accepts with
    | none => .ok (left, t :: behind)
    | some op =>
      match _run : operand.run behind with
      | .error e => .error e
      | .ok (right, rest) =>
        let height := max height right.height + 1
        if maxOperatorHeight < height then .error ⟨.nestingTooDeep, t.position⟩
        else chainFrom accepts operand (.binary op left right t.position) height rest
termination_by ts.length
decreasing_by
  have := operand.consumes _run
  simp only [List.length_cons]
  omega

theorem length_le_of_chainFrom (accepts : BinaryOperator → Bool) (operand : Parser Expr)
    {left e : Expr} {height : Nat} {ts rest : List Token}
    (h : chainFrom accepts operand left height ts = .ok (e, rest)) : rest.length ≤ ts.length := by
  fun_induction chainFrom accepts operand left height ts generalizing e rest with
  | case1 => cases h; exact Nat.le_refl _
  | case2 => cases h; exact Nat.le_refl _
  | case3 => cases h
  | case4 => cases h
  | case5 =>
    rename_i hrun _ _ ih
    have := operand.consumes hrun
    have := ih h
    simp only [List.length_cons]
    omega

/-- Operands with accepted operators between them, grouped to the left. -/
def chain (accepts : BinaryOperator → Bool) (operand : Parser Expr) : Parser Expr where
  run ts := do
    let (left, rest) ← operand.run ts
    chainFrom accepts operand left left.height rest
  consumes {ts e rest} h := by
    obtain ⟨⟨left, behind⟩, hrun, h⟩ := bind_eq_ok.1 h
    have := operand.consumes hrun
    have := length_le_of_chainFrom accepts operand h
    omega

end Parser

end DarjaLang
