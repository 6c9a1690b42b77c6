import DarjaLang.Syntax.Parser

/-!
# Reading expressions

From the loosest to the tightest binding: `||`, `&&`, comparisons, sums, products, operators in
front of an operand, and primaries (literals, names, calls, parentheses).  All binary operators
group to the left.

The number of nested parentheses, argument lists and operators in front of an operand is limited.
`Parser.operand` is therefore defined by recursion on the levels that are left: what stands inside
one of these is read by the parser with one level less.
-/

set_option autoImplicit false

namespace DarjaLang

namespace Parser

/-! ## Binary levels -/

/-- Products, quotients and remainders of operands. -/
def product (operand : Parser Expr) : Parser Expr :=
  chain (· matches .arithmetic .multiply | .arithmetic .divide | .arithmetic .remainder) operand

/-- Sums and differences of products. -/
def sum (operand : Parser Expr) : Parser Expr :=
  chain (· matches .arithmetic .add | .arithmetic .subtract) (product operand)

/-- Comparisons of sums. -/
def comparison (operand : Parser Expr) : Parser Expr :=
  chain BinaryOperator.isComparison (sum operand)

/-- Comparisons joined by `&&`. -/
def conjunction (operand : Parser Expr) : Parser Expr :=
  chain (· matches .connective .and) (comparison operand)

/-- Conjunctions joined by `||`: any expression. -/
def disjunction (operand : Parser Expr) : Parser Expr :=
  chain (· matches .connective .or) (conjunction operand)

/-! ## What parentheses enclose

In these, `inner` reads operands one level further in, and `opening` is the place of the opening
parenthesis, which has been consumed. -/

/-- The complaint about a parenthesis that the end of the line leaves open. -/
def unmatched (opening : Position) : Complaint := ⟨.unmatchedDelimiter '(', opening⟩

/-- Steps over a closing parenthesis.  What is complained about when the tokens run out is up to
the construct. -/
def close (opening : Position) (expected : String) (runOut : Complaint) :
    List Token → Reading (List Token)
  | [] => .error runOut
  | t :: rest =>
    match t.kind with
    | .rightParen => .ok rest
    | .endOfLine | .endOfInput => .error (unmatched opening)
    | _ => .error (ParseError.unexpected (some t) expected)

theorem length_lt_of_close {opening : Position} {expected : String} {runOut : Complaint}
    {ts rest : List Token} (h : close opening expected runOut ts = .ok rest) :
    rest.length < ts.length := by
  cases ts with
  | nil => cases h
  | cons t ts =>
    dsimp only [close] at h
    split at h <;> cases h
    exact Nat.lt_succ_self _

/-- An expression and its closing parenthesis. -/
def group (inner : Option (Parser Expr)) (opening : Position) (ts : List Token) :
    Reading (Expr × List Token) := do
  let operand ← deeper inner opening
  let (e, rest) ← (disjunction operand).run ts
  let rest ← close opening "')'" (unmatched opening) rest
  return (e, rest)

theorem length_lt_of_group {inner : Option (Parser Expr)} {opening : Position}
    {ts rest : List Token} {e : Expr} (h : group inner opening ts = .ok (e, rest)) :
    rest.length < ts.length := by
  obtain ⟨operand, -, h⟩ := bind_eq_ok.1 h
  obtain ⟨⟨e, behind⟩, hrun, h⟩ := bind_eq_ok.1 h
  obtain ⟨rest, hclose, h⟩ := bind_eq_ok.1 h
  cases h
  exact Nat.lt_trans (length_lt_of_close hclose) (consumes _ hrun)

/-- The first token closes a parenthesis. -/
def startsWithClose : List Token → Bool
  | t :: _ => (t.kind matches .rightParen)
  | [] => false

/-- The arguments of a call and the closing parenthesis. -/
def arguments (inner : Option (Parser Expr)) (opening : Position) (ts : List Token) :
    Reading (List Expr × List Token) := do
  let operand ← deeper inner opening
  if startsWithClose ts then return ([], ts.tail)
  let (es, rest) ← (separated (disjunction operand)).run ts
  let rest ← close opening "',' or ')'" (ParseError.unexpected none "',' or ')'") rest
  return (es, rest)

theorem length_le_of_arguments {inner : Option (Parser Expr)} {opening : Position}
    {ts rest : List Token} {es : List Expr} (h : arguments inner opening ts = .ok (es, rest)) :
    rest.length ≤ ts.length := by
  obtain ⟨operand, -, h⟩ := bind_eq_ok.1 h
  split at h
  · cases h
    simp
  · obtain ⟨⟨es, behind⟩, hrun, h⟩ := bind_eq_ok.1 h
    obtain ⟨rest, hclose, h⟩ := bind_eq_ok.1 h
    cases h
    exact Nat.le_of_lt (Nat.lt_trans (length_lt_of_close hclose) (consumes _ hrun))

/-! ## Primaries and operands -/

/-- A name that has been consumed: a call if a parenthesis follows, a variable otherwise. -/
def named (inner : Option (Parser Expr)) (name : String) (position : Position) :
    List Token → Reading (Expr × List Token)
  | [] => .ok (.var name position, [])
  | t :: rest =>
    match t.kind with
    | .leftParen => do
      let (es, rest) ← arguments inner t.position rest
      return (.call name es position, rest)
    | _ => .ok (.var name position, t :: rest)

theorem length_le_of_named {inner : Option (Parser Expr)} {name : String} {position : Position}
    {ts rest : List Token} {e : Expr} (h : named inner name position ts = .ok (e, rest)) :
    rest.length ≤ ts.length := by
  cases ts with
  | nil => cases h; exact Nat.le_refl _
  | cons t ts =>
    dsimp only [named] at h
    split at h
    · obtain ⟨⟨es, behind⟩, hargs, h⟩ := bind_eq_ok.1 h
      cases h
      exact Nat.le_succ_of_le (length_le_of_arguments hargs)
    · cases h
      exact Nat.le_refl _

/-- What a primary is read as when `t` is its first token. -/
def primaryAt (inner : Option (Parser Expr)) (t : Token) (rest : List Token) :
    Reading (Expr × List Token) :=
  match t.kind with
  | .integer digits => .ok (.literal (.integer digits) t.position, rest)
  | .float value => .ok (.literal (.float value) t.position, rest)
  | .string text => .ok (.literal (.string text) t.position, rest)
  | .boolean value => .ok (.literal (.boolean value) t.position, rest)
  | .keyword .walou => .ok (.literal .walou t.position, rest)
  | .identifier name => named inner name t.position rest
  | .leftParen => group inner t.position rest
  | .keyword .khlas => .error ⟨.misplacedSentinel, t.position⟩
  | _ => .error (ParseError.unexpected (some t) "an expression")

theorem length_le_of_primaryAt {inner : Option (Parser Expr)} {t : Token} {ts rest : List Token}
    {e : Expr} (h : primaryAt inner t ts = .ok (e, rest)) : rest.length ≤ ts.length := by
  unfold primaryAt at h
  split at h
  case h_6 => exact length_le_of_named h
  case h_7 => exact Nat.le_of_lt (length_lt_of_group h)
  all_goals cases h
  all_goals exact Nat.le_refl _

/-- A literal, a name, a call or an expression in parentheses. -/
def primary (inner : Option (Parser Expr)) : Parser Expr where
  run
    | [] => .error (ParseError.unexpected none "an expression")
    | t :: rest => primaryAt inner t rest
  consumes {ts e rest} h := by
    cases ts with
    | nil => cases h
    | cons t ts => exact Nat.lt_succ_of_le (length_le_of_primaryAt h)

/-- The operator that a token is when it stands in front of an operand. -/
def unary? (t : Token) : Option UnaryOperator :=
  match t.kind with
  | .minus => some .negate
  | .bang => some .not
  | _ => none

/-- An operator that has been consumed, in front of its operand. -/
def signed (inner : Option (Parser Expr)) (op : UnaryOperator) (position : Position)
    (ts : List Token) : Reading (Expr × List Token) := do
  let operand ← deeper inner position
  let (e, rest) ← operand.run ts
  return (.unary op e position, rest)

theorem length_lt_of_signed {inner : Option (Parser Expr)} {op : UnaryOperator}
    {position : Position} {ts rest : List Token} {e : Expr}
    (h : signed inner op position ts = .ok (e, rest)) : rest.length < ts.length := by
  obtain ⟨operand, -, h⟩ := bind_eq_ok.1 h
  obtain ⟨⟨e, behind⟩, hrun, h⟩ := bind_eq_ok.1 h
  cases h
  exact operand.consumes hrun

/-- A primary with any number of operators in front of it, given the parser for one level further
in. -/
def operandAround (inner : Option (Parser Expr)) : Parser Expr where
  run
    | [] => (primary inner).run []
    | t :: rest =>
      match unary? t with
      | some op => signed inner op t.position rest
      | none => (primary inner).run (t :: rest)
  consumes {ts e rest} h := by
    cases ts with
    | nil => exact (primary inner).consumes h
    | cons t ts =>
      dsimp only at h
      split at h
      · exact Nat.lt_succ_of_lt (length_lt_of_signed h)
      · exact (primary inner).consumes h

/-- Reads an operand in which so many levels of nesting are allowed. -/
def operand : (levels : Nat) → Parser Expr
  | 0 => operandAround none
  | levels + 1 => operandAround (some (operand levels))

/-- Reads operands one level further in. -/
def innerOperand : (levels : Nat) → Option (Parser Expr)
  | 0 => none
  | levels + 1 => some (operand levels)

theorem operand_eq (levels : Nat) : operand levels = operandAround (innerOperand levels) := by
  cases levels <;> rfl

/-- Reads an expression in which so many levels of nesting are allowed. -/
def expression (levels : Nat) : Parser Expr := disjunction (operand levels)

end Parser

end DarjaLang
