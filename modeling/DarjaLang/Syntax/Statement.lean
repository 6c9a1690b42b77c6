import DarjaLang.Syntax.Expression

/-!
# Reading statements

A line holds one statement:

* `khlas`, which must stand alone and never inside a block;
* `kteb` and expressions with commas between them;
* `ila`, a condition and a block, then any number of `wila ila` with a condition and a block, then
  perhaps `wila` and a block;
* `mazal`, a condition and a block;
* a name, `=` and an expression; or
* an expression.

A block is a pair of braces around statements that each end with their line.  Blocks count toward
the same limit of nesting as parentheses do, so `Parser.statement` too is defined by recursion on
the levels that are left.

`Statement.ofTokens?` reads a whole line; it accepts nothing but ends of lines behind the statement.
`Statement.ofTokens` makes a statement of any line: one that cannot be read becomes `invalid`.
-/

set_option autoImplicit false

namespace DarjaLang

namespace Parser

/-! ## Blocks -/

/-- The complaint about a block that is still open when the tokens run out. -/
def unterminated (opening : Position) : Complaint := ⟨.unterminatedBlock, opening⟩

/-- What must follow a statement in a block: the end of its line or of the block. -/
def checkFollower (opening : Position) : List Token → Reading Unit
  | [] => .error (unterminated opening)
  | t :: _ =>
    match t.kind with
    | .endOfLine | .rightBrace => .ok ()
    | .endOfInput => .error (unterminated opening)
    | _ => .error (ParseError.unexpected (some t) "end of line or '\x7d'")

/-- A statement as it may stand in a block: the end of the program may not. -/
def checkNested : Statement → Reading Statement
  | .termination position => .error ⟨.misplacedSentinel, position⟩
  | s => .ok s

/-- The statements of a block whose brace was opened at `opening`, and the closing brace. -/
def blockFrom (item : Parser Statement) (opening : Position) (ts : List Token) :
    Reading (List Statement × List Token) :=
  match _skip : skipLineEnds ts with
  | [] => .error (unterminated opening)
  | t :: behind =>
    match t.kind with
    | .rightBrace => .ok ([], behind)
    | .endOfInput => .error (unterminated opening)
    | _ =>
      match _run : item.run (t :: behind) with
      | .error e => .error e
      | .ok (s, rest) => do
        let s ← checkNested s
        checkFollower opening rest
        let (ss, rest) ← blockFrom item opening rest
        return (s :: ss, rest)
termination_by ts.length
decreasing_by
  have := item.consumes _run
  have := length_skipLineEnds_le ts
  simp only [_skip] at this
  omega

theorem length_lt_of_blockFrom (item : Parser Statement) {opening : Position}
    {ts rest : List Token} {ss : List Statement}
    (h : blockFrom item opening ts = .ok (ss, rest)) : rest.length < ts.length := by
  fun_induction blockFrom item opening ts generalizing ss rest with
  | case1 => cases h
  | case2 ts t behind hskip _ =>
    cases h
    have := length_skipLineEnds_le ts
    simp only [hskip, List.length_cons] at this
    omega
  | case3 => cases h
  | case4 => cases h
  | case5 ts =>
    rename_i hskip _ _ hrun _ _ ih
    obtain ⟨s, -, h⟩ := bind_eq_ok.1 h
    obtain ⟨-, -, h⟩ := bind_eq_ok.1 h
    obtain ⟨⟨ss, last⟩, hrest, h⟩ := bind_eq_ok.1 h
    cases h
    have := item.consumes hrun
    have := length_skipLineEnds_le ts
    simp only [hskip] at this
    have := ih hrest
    omega

/-- Statements in braces, given the parser for one level further in. -/
def blockAround (inner : Option (Parser Statement)) : Parser (List Statement) where
  run
    | [] => .error (ParseError.unexpected none "'\x7b'")
    | t :: rest =>
      match t.kind with
      | .leftBrace => do
        let item ← deeper inner t.position
        blockFrom item t.position rest
      | _ => .error (ParseError.unexpected (some t) "'\x7b'")
  consumes {ts ss rest} h := by
    cases ts with
    | nil => cases h
    | cons t ts =>
      dsimp only at h
      split at h
      · obtain ⟨item, -, h⟩ := bind_eq_ok.1 h
        exact Nat.lt_succ_of_lt (length_lt_of_blockFrom item h)
      · cases h

/-! ## Compound statements -/

/-- A condition and the block that depends on it. -/
def guarded (expr : Parser Expr) (block : Parser (List Statement)) :
    Parser (Expr × List Statement) where
  run ts := do
    let (condition, rest) ← expr.run ts
    let (body, rest) ← block.run rest
    return ((condition, body), rest)
  consumes {ts b rest} h := by
    obtain ⟨⟨condition, behind⟩, hrun, h⟩ := bind_eq_ok.1 h
    obtain ⟨⟨body, last⟩, hblock, h⟩ := bind_eq_ok.1 h
    cases h
    exact Nat.lt_trans (consumes _ hblock) (consumes _ hrun)

/-- The further branches of a conditional and its last block: each `wila` starts one or the
other. -/
def alternatives (branch : Parser (Expr × List Statement)) (block : Parser (List Statement))
    (ts : List Token) :
    Reading ((List (Expr × List Statement) × Option (List Statement)) × List Token) :=
  match ts with
  | [] => .ok (([], none), [])
  | t :: behind =>
    match t.kind with
    | .keyword .wila =>
      match behind with
      | [] => do
        let (body, rest) ← block.run []
        return (([], some body), rest)
      | u :: behind =>
        match u.kind with
        | .keyword .ila =>
          match _run : branch.run behind with
          | .error e => .error e
          | .ok (b, rest) => do
            let ((bs, otherwise), rest) ← alternatives branch block rest
            return ((b :: bs, otherwise), rest)
        | _ => do
          let (body, rest) ← block.run (u :: behind)
          return (([], some body), rest)
    | _ => .ok (([], none), t :: behind)
termination_by ts.length
decreasing_by
  have := branch.consumes _run
  simp only [List.length_cons]
  omega

theorem length_le_of_alternatives (branch : Parser (Expr × List Statement))
    (block : Parser (List Statement)) {ts rest : List Token}
    {r : List (Expr × List Statement) × Option (List Statement)}
    (h : alternatives branch block ts = .ok (r, rest)) : rest.length ≤ ts.length := by
  fun_induction alternatives branch block ts generalizing r rest with
  | case1 => cases h; exact Nat.le_refl _
  | case2 =>
    obtain ⟨⟨body, last⟩, hblock, h⟩ := bind_eq_ok.1 h
    cases h
    have := block.consumes hblock
    simp only [List.length_nil] at this
    omega
  | case3 => cases h
  | case4 t _ u _ behind b rest' hrun ih =>
    obtain ⟨⟨⟨bs, otherwise⟩, last⟩, hrest, h⟩ := bind_eq_ok.1 h
    cases h
    have := branch.consumes hrun
    have := ih hrest
    simp only [List.length_cons]
    omega
  | case5 =>
    obtain ⟨⟨body, last⟩, hblock, h⟩ := bind_eq_ok.1 h
    cases h
    have := block.consumes hblock
    simp only [List.length_cons] at this ⊢
    omega
  | case6 => cases h; exact Nat.le_refl _

/-- A conditional whose `ila` stood at `position` and has been consumed. -/
def conditional (expr : Parser Expr) (block : Parser (List Statement)) (position : Position) :
    Parser Statement where
  run ts := do
    let (b, rest) ← (guarded expr block).run ts
    let ((bs, otherwise), rest) ← alternatives (guarded expr block) block rest
    return (.conditional (b :: bs) otherwise position, rest)
  consumes {ts s rest} h := by
    obtain ⟨⟨b, behind⟩, hrun, h⟩ := bind_eq_ok.1 h
    obtain ⟨⟨⟨bs, otherwise⟩, last⟩, hrest, h⟩ := bind_eq_ok.1 h
    cases h
    exact Nat.lt_of_le_of_lt (length_le_of_alternatives _ _ hrest) (consumes _ hrun)

/-- A loop whose `mazal` stood at `position` and has been consumed. -/
def loop (expr : Parser Expr) (block : Parser (List Statement)) (position : Position) :
    Parser Statement where
  run ts := do
    let ((condition, body), rest) ← (guarded expr block).run ts
    return (.loop condition body position, rest)
  consumes {ts s rest} h := by
    obtain ⟨⟨⟨condition, body⟩, behind⟩, hrun, h⟩ := bind_eq_ok.1 h
    cases h
    exact consumes _ hrun

/-! ## Simple statements -/

/-- `khlas`, which has been consumed, with nothing behind it on its line. -/
def termination (position : Position) (ts : List Token) : Reading (Statement × List Token) :=
  match ts with
  | [] => .ok (.termination position, [])
  | t :: rest =>
    if t.isTerminator then .ok (.termination position, t :: rest)
    else .error ⟨.misplacedSentinel, position⟩

/-- `kteb`, which has been consumed, and what it prints. -/
def print (expr : Parser Expr) (position : Position) : Parser Statement where
  run ts := do
    let (values, rest) ← (separated expr).run ts
    return (.print values position, rest)
  consumes {ts s rest} h := by
    obtain ⟨⟨values, behind⟩, hrun, h⟩ := bind_eq_ok.1 h
    cases h
    exact consumes _ hrun

/-- The name that a token list assigns to, if it starts with a name and an equals sign, and the
tokens behind these. -/
def target? : List Token → Option (String × List Token)
  | t :: u :: rest =>
    match t.kind, u.kind with
    | .identifier name, .assign => some (name, rest)
    | _, _ => none
  | _ => none

theorem length_lt_of_target? {ts rest : List Token} {name : String}
    (h : target? ts = some (name, rest)) : rest.length < ts.length := by
  unfold target? at h
  split at h
  · split at h
    · cases h
      simp only [List.length_cons]
      omega
    · cases h
  · cases h

/-- An assignment or an expression; `position` is where it starts. -/
def simple (expr : Parser Expr) (position : Position) : Parser Statement where
  run ts :=
    match target? ts with
    | some (name, behind) => do
      let (value, rest) ← expr.run behind
      return (.assignment name value position, rest)
    | none => do
      let (value, rest) ← expr.run ts
      return (.expression value position, rest)
  consumes {ts s rest} h := by
    dsimp only at h
    split at h
    · next htarget =>
      obtain ⟨⟨value, last⟩, hrun, h⟩ := bind_eq_ok.1 h
      cases h
      exact Nat.lt_trans (consumes _ hrun) (length_lt_of_target? htarget)
    · obtain ⟨⟨value, last⟩, hrun, h⟩ := bind_eq_ok.1 h
      cases h
      exact consumes _ hrun

/-! ## Statements -/

/-- What a statement is read as when `t` is its first token. -/
def statementAt (expr : Parser Expr) (block : Parser (List Statement)) (t : Token)
    (rest : List Token) : Reading (Statement × List Token) :=
  match t.kind with
  | .keyword .khlas => termination t.position rest
  | .keyword .kteb => (print expr t.position).run rest
  | .keyword .ila => (conditional expr block t.position).run rest
  | .keyword .mazal => (loop expr block t.position).run rest
  | .keyword .wila => .error (ParseError.unexpected (some t) "a statement")
  | _ => (simple expr t.position).run (t :: rest)

/-- A statement, given the parsers for its expressions and blocks. -/
def statementWith (expr : Parser Expr) (block : Parser (List Statement)) : Parser Statement where
  run
    | [] => .error (ParseError.unexpected none "a statement")
    | t :: rest => statementAt expr block t rest
  consumes {ts s rest} h := by
    cases ts with
    | nil => cases h
    | cons t ts =>
      dsimp only [statementAt] at h
      split at h
      · unfold termination at h
        split at h
        · cases h
          exact Nat.zero_lt_succ _
        · split at h <;> cases h
          exact Nat.lt_succ_self _
      · exact Nat.lt_succ_of_lt (consumes _ h)
      · exact Nat.lt_succ_of_lt (consumes _ h)
      · exact Nat.lt_succ_of_lt (consumes _ h)
      · cases h
      · exact consumes _ h

/-- Reads a statement in which so many levels of nesting are allowed. -/
def statement : (levels : Nat) → Parser Statement
  | 0 => statementWith (expression 0) (blockAround none)
  | levels + 1 =>
    statementWith (expression (levels + 1)) (blockAround (some (statement levels)))

/-- Reads statements one level further in. -/
def innerStatement : (levels : Nat) → Option (Parser Statement)
  | 0 => none
  | levels + 1 => some (statement levels)

/-- Reads a block in which so many levels of nesting are allowed, itself included. -/
def block (levels : Nat) : Parser (List Statement) := blockAround (innerStatement levels)

theorem statement_eq (levels : Nat) :
    statement levels = statementWith (expression levels) (block levels) := by
  cases levels <;> rfl

/-! ## Lines -/

/-- Nothing but ends of lines may follow a statement. -/
def checkEnd (ts : List Token) : Reading Unit :=
  match skipLineEnds ts with
  | [] => .ok ()
  | t :: _ =>
    match t.kind with
    | .endOfInput => .ok ()
    | .keyword .khlas => .error ⟨.misplacedSentinel, t.position⟩
    | .error _ => .error (ParseError.unexpected (some t) "end of line")
    | _ => .error ⟨.trailingTokens t.describe, t.position⟩

end Parser

namespace Statement

/-- The statement that a token list consists of. -/
def ofTokens? (ts : List Token) : Reading Statement := do
  let (s, rest) ← (Parser.statement maxNesting).run (Parser.skipLineEnds ts)
  Parser.checkEnd rest
  return s

/-- The statement that a token list stands for. -/
def ofTokens (ts : List Token) : Statement :=
  match ofTokens? ts with
  | .ok s => s
  | .error complaint => .invalid complaint

end Statement

end DarjaLang
