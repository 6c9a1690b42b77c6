import DarjaLang.Proofs.Reading.Unfolding
import DarjaLang.Proofs.Syntax.Relocation

/-!
# Readers do not look at places

A reader goes by the kinds of tokens alone.  If the tokens are relocated, it reads the same tree or
has the same complaint, relocated in the same way.  The only place that does not come from a token
is the one for when there is none, and that one must stay where it is.

* `Parser.Commutes` says this of a parser.  Like the parsers themselves, the proofs are put together
  from a few pieces, of which `relocate_bind` is the main one.
* `Statement.ofTokens_relocate` is the result.
-/

set_option autoImplicit false

namespace DarjaLang

open Located

variable {f : Position → Position}

namespace Token

@[simp] theorem kind_relocate (t : Token) : (relocate f t).kind = t.kind := rfl

@[simp] theorem position_relocate (t : Token) : (relocate f t).position = f t.position := rfl

theorem isTerminator_relocate (t : Token) : (relocate f t).isTerminator = t.isTerminator := rfl

end Token

/-- The complaint about a token moves with it. -/
theorem ParseError.relocate_unexpected (t : Token) (expected : String) :
    relocate f (unexpected (some t) expected) = unexpected (some (relocate f t)) expected := by
  obtain ⟨kind, lexeme, position⟩ := t
  cases kind with
  | error c =>
    rw [relocate_token, unexpected, unexpected]
    dsimp only
    split <;> rfl
  | _ => rfl

namespace Parser

variable {α β : Type} [Located α] [Located β]

/-- The parser reads the same from relocated tokens, relocated in the same way. -/
def Commutes (f : Position → Position) (p : Parser α) : Prop :=
  ∀ ts, relocate f (p.run ts) = p.run (relocate f ts)

/-- The same, if there is a parser at all. -/
def InnerCommutes (f : Position → Position) (inner : Option (Parser α)) : Prop :=
  ∀ p, inner = some p → Commutes f p

theorem skipLineEnds_relocate (ts : List Token) :
    skipLineEnds (relocate f ts) = relocate f (skipLineEnds ts) :=
  List.dropWhile_map ..

omit [Located α] in
/-- What a token encloses is read alike. -/
theorem relocate_deeper_bind {inner : Option (Parser α)} {g h : Parser α → Reading β}
    (hg : ∀ p, inner = some p → relocate f (g p) = h p) (opening : Position) :
    relocate f (deeper inner opening >>= g) = deeper inner (f opening) >>= h := by
  cases inner with
  | none => rfl
  | some p => exact hg p rfl

/-! ## Lists and chains -/

theorem relocate_separatedFrom {item : Parser α} (hitem : Commutes f item) (ts : List Token) :
    relocate f (separatedFrom item ts) = separatedFrom item (relocate f ts) := by
  rw [separatedFrom_eq, separatedFrom_eq, ← hitem]
  refine relocate_bind fun r hrun => ?_
  obtain ⟨a, rest⟩ := r
  cases rest with
  | nil => rfl
  | cons t behind =>
    have hlt : behind.length < ts.length := Nat.lt_of_succ_lt (item.consumes hrun)
    have ih := relocate_separatedFrom hitem behind
    obtain ⟨kind, lexeme, position⟩ := t
    cases kind with
    | comma =>
      rw [relocate_mk, relocate_cons]
      dsimp only [relocate_token]
      rw [← ih]
      exact relocate_bind fun _ _ => rfl
    | _ => rfl
termination_by ts.length

theorem commutes_separated {item : Parser α} (hitem : Commutes f item) :
    Commutes f (separated item) :=
  relocate_separatedFrom hitem

theorem relocate_chainFrom (accepts : BinaryOperator → Bool) {operand : Parser Expr}
    (hoperand : Commutes f operand) (left : Expr) (height : Nat) (ts : List Token) :
    relocate f (chainFrom accepts operand left height ts) =
      chainFrom accepts operand (relocate f left) height (relocate f ts) := by
  cases ts with
  | nil => rw [relocate_nil, chainFrom, chainFrom]; rfl
  | cons t behind =>
    rw [relocate_cons, chainFrom_cons, chainFrom_cons, Token.kind_relocate]
    cases t.kind.operator?.filter accepts with
    | none => rfl
    | some op =>
      dsimp only
      rw [← hoperand]
      refine relocate_bind fun r hrun => ?_
      obtain ⟨right, rest⟩ := r
      have hlt : rest.length < behind.length := operand.consumes hrun
      rw [relocate_mk]
      dsimp only
      rw [Expr.height_relocate]
      split
      · rfl
      · exact relocate_chainFrom accepts hoperand (.binary op left right t.position) _ rest
termination_by ts.length

theorem commutes_chain (accepts : BinaryOperator → Bool) {operand : Parser Expr}
    (hoperand : Commutes f operand) : Commutes f (chain accepts operand) := by
  intro ts
  change relocate f (operand.run ts >>= _) = operand.run (relocate f ts) >>= _
  rw [← hoperand]
  refine relocate_bind fun r _ => ?_
  rw [relocate_chainFrom accepts hoperand, ← Expr.height_relocate r.1]
  rfl

theorem commutes_disjunction {operand : Parser Expr} (hoperand : Commutes f operand) :
    Commutes f (disjunction operand) :=
  commutes_chain _ (commutes_chain _ (commutes_chain _ (commutes_chain _
    (commutes_chain _ hoperand))))

/-! ## Expressions -/

theorem relocate_close (opening : Position) (expected : String) (runOut : Complaint)
    (ts : List Token) : relocate f (close opening expected runOut ts) =
      close (f opening) expected (relocate f runOut) (relocate f ts) := by
  cases ts with
  | nil => rfl
  | cons t rest =>
    have hunexpected := ParseError.relocate_unexpected (f := f) t expected
    rw [relocate_cons, close, close, Token.kind_relocate]
    cases t.kind with
    | rightParen => rfl
    | endOfLine => rfl
    | endOfInput => rfl
    | _ => exact congrArg Except.error hunexpected

section Enclosed

variable {inner : Option (Parser Expr)} (hinner : InnerCommutes f inner)

include hinner

theorem relocate_group (opening : Position) (ts : List Token) :
    relocate f (group inner opening ts) = group inner (f opening) (relocate f ts) := by
  refine relocate_deeper_bind (fun operand hoperand => ?_) opening
  rw [← commutes_disjunction (hinner operand hoperand)]
  refine relocate_bind fun r _ => ?_
  obtain ⟨e, rest⟩ := r
  change _ = close (f opening) "')'" (relocate f (unmatched opening)) (relocate f rest) >>= _
  rw [← relocate_close]
  exact relocate_bind fun (_ : List Token) _ => rfl

variable (hf : f .unknown = .unknown)

include hf

theorem relocate_arguments (opening : Position) (ts : List Token) :
    relocate f (arguments inner opening ts) = arguments inner (f opening) (relocate f ts) := by
  have hmissing : relocate f (ParseError.unexpected none "',' or ')'") =
      ParseError.unexpected none "',' or ')'" := by
    rw [ParseError.unexpected, relocate_diagnostic, hf]
  refine relocate_deeper_bind (fun operand hoperand => ?_) opening
  have hstarts : startsWithClose (relocate f ts) = startsWithClose ts := by
    cases ts <;> rfl
  rw [hstarts]
  split
  · cases ts <;> rfl
  · rw [← commutes_separated (commutes_disjunction (hinner operand hoperand))]
    refine relocate_bind fun r _ => ?_
    obtain ⟨es, rest⟩ := r
    have hclose := relocate_close (f := f) opening "',' or ')'"
      (ParseError.unexpected none "',' or ')'") rest
    rw [hmissing] at hclose
    rw [relocate_mk]
    dsimp only
    rw [← hclose]
    exact relocate_bind fun (_ : List Token) _ => rfl

theorem relocate_named (name : String) (position : Position) (ts : List Token) :
    relocate f (named inner name position ts) =
      named inner name (f position) (relocate f ts) := by
  cases ts with
  | nil => rfl
  | cons t rest =>
    have harguments := relocate_arguments hinner hf t.position rest
    obtain ⟨kind, lexeme, place⟩ := t
    cases kind with
    | leftParen =>
      rw [relocate_cons, named, named]
      dsimp only [relocate_token] at harguments ⊢
      rw [← harguments]
      refine relocate_bind fun r _ => ?_
      exact congrArg (fun e => Except.ok (e, relocate f r.2)) (Expr.relocate_call name r.1 position)
    | _ => rfl

theorem relocate_primaryAt (t : Token) (rest : List Token) :
    relocate f (primaryAt inner t rest) = primaryAt inner (relocate f t) (relocate f rest) := by
  have hunexpected := ParseError.relocate_unexpected (f := f) t "an expression"
  obtain ⟨kind, lexeme, place⟩ := t
  cases kind with
  | integer digits => rfl
  | float value => rfl
  | string text => rfl
  | boolean value => rfl
  | identifier name => exact relocate_named hinner hf name place rest
  | leftParen => exact relocate_group hinner place rest
  | keyword word =>
    cases word with
    | walou => rfl
    | khlas => rfl
    | _ => exact congrArg Except.error hunexpected
  | _ => exact congrArg Except.error hunexpected

theorem commutes_primary : Commutes f (primary inner) := by
  intro ts
  cases ts with
  | nil =>
    change Except.error (⟨_, f .unknown⟩ : Complaint) = _
    rw [hf]
    rfl
  | cons t rest => exact relocate_primaryAt hinner hf t rest

omit hf in
theorem relocate_signed (op : UnaryOperator) (position : Position) (ts : List Token) :
    relocate f (signed inner op position ts) =
      signed inner op (f position) (relocate f ts) := by
  refine relocate_deeper_bind (fun operand hoperand => ?_) position
  rw [← hinner operand hoperand]
  exact relocate_bind fun _ _ => rfl

theorem commutes_operandAround : Commutes f (operandAround inner) := by
  intro ts
  cases ts with
  | nil => exact commutes_primary hinner hf []
  | cons t rest =>
    have hunary : unary? (relocate f t) = unary? t := rfl
    rw [relocate_cons, operandAround]
    dsimp only
    rw [hunary]
    cases unary? t with
    | none => exact commutes_primary hinner hf (t :: rest)
    | some op => exact relocate_signed hinner op t.position rest

end Enclosed

theorem commutes_operand (hf : f .unknown = .unknown) : (levels : Nat) →
    Commutes f (operand levels)
  | 0 => commutes_operandAround nofun hf
  | levels + 1 => commutes_operandAround
    (fun p hp => by cases hp; exact commutes_operand hf levels) hf

theorem commutes_expression (hf : f .unknown = .unknown) (levels : Nat) :
    Commutes f (expression levels) :=
  commutes_disjunction (commutes_operand hf levels)

/-! ## Blocks -/

theorem relocate_checkFollower (opening : Position) (ts : List Token) :
    relocate f (checkFollower opening ts) = checkFollower (f opening) (relocate f ts) := by
  cases ts with
  | nil => rfl
  | cons t rest =>
    have hunexpected := ParseError.relocate_unexpected (f := f) t "end of line or '\x7d'"
    rw [relocate_cons, checkFollower, checkFollower, Token.kind_relocate]
    cases t.kind with
    | endOfLine => rfl
    | rightBrace => rfl
    | endOfInput => rfl
    | _ => exact congrArg Except.error hunexpected

theorem relocate_checkNested (st : Statement) :
    relocate f (checkNested st) = checkNested (relocate f st) := by
  cases st <;> rfl

theorem relocate_blockFrom {item : Parser Statement} (hitem : Commutes f item)
    (opening : Position) (ts : List Token) :
    relocate f (blockFrom item opening ts) = blockFrom item (f opening) (relocate f ts) := by
  rw [blockFrom_eq, blockFrom_eq, skipLineEnds_relocate]
  have hle := length_skipLineEnds_le ts
  cases hskip : skipLineEnds ts with
  | nil => rfl
  | cons t behind =>
    rw [hskip] at hle
    rw [relocate_cons]
    dsimp only
    rw [Token.kind_relocate]
    cases t.kind with
    | rightBrace => rfl
    | endOfInput => rfl
    | _ =>
      dsimp only
      rw [← relocate_cons, ← hitem]
      refine relocate_bind fun r hrun => ?_
      obtain ⟨st, rest⟩ := r
      have hlt : rest.length < ts.length := Nat.lt_of_lt_of_le (item.consumes hrun) hle
      rw [relocate_mk]
      dsimp only
      rw [← relocate_checkNested, ← relocate_checkFollower, ← relocate_blockFrom hitem opening rest]
      refine relocate_bind fun _ _ => relocate_bind fun _ _ => ?_
      exact relocate_bind fun _ _ => rfl
termination_by ts.length

theorem commutes_blockAround (hf : f .unknown = .unknown) {inner : Option (Parser Statement)}
    (hinner : InnerCommutes f inner) : Commutes f (blockAround inner) := by
  intro ts
  cases ts with
  | nil =>
    change Except.error (⟨_, f .unknown⟩ : Complaint) = _
    rw [hf]
    rfl
  | cons t rest =>
    have hunexpected := ParseError.relocate_unexpected (f := f) t "'\x7b'"
    rw [relocate_cons, blockAround]
    dsimp only
    rw [Token.kind_relocate, Token.position_relocate]
    cases t.kind with
    | leftBrace =>
      exact relocate_deeper_bind (fun item hitem =>
        relocate_blockFrom (hinner item hitem) t.position rest) t.position
    | _ => exact congrArg Except.error hunexpected

/-! ## Statements -/

section Compound

variable {expr : Parser Expr} {block : Parser (List Statement)}
  {branch : Parser (Expr × List Statement)}

theorem commutes_guarded (hexpr : Commutes f expr) (hblock : Commutes f block) :
    Commutes f (guarded expr block) := by
  intro ts
  change relocate f (expr.run ts >>= _) = expr.run (relocate f ts) >>= _
  rw [← hexpr]
  refine relocate_bind fun r _ => ?_
  obtain ⟨condition, rest⟩ := r
  rw [relocate_mk]
  dsimp only
  rw [← hblock]
  exact relocate_bind fun _ _ => rfl

/-- The last block of a conditional, which makes it complete, is read alike. -/
theorem relocate_otherwise (hblock : Commutes f block) (ts : List Token) :
    relocate f (do
        let (body, rest) ← block.run ts
        return ((([] : List (Expr × List Statement)), some body), rest)) = (do
        let (body, rest) ← block.run (relocate f ts)
        return ((([] : List (Expr × List Statement)), some body), rest)) := by
  rw [← hblock]
  exact relocate_bind fun _ _ => rfl

theorem relocate_alternatives (hbranch : Commutes f branch) (hblock : Commutes f block)
    (ts : List Token) :
    relocate f (alternatives branch block ts) = alternatives branch block (relocate f ts) := by
  cases ts with
  | nil => rw [relocate_nil, alternatives]; rfl
  | cons t behind =>
    rw [relocate_cons, alternatives_cons, alternatives_cons, Token.kind_relocate]
    cases t.kind with
    | keyword word =>
      cases word with
      | wila =>
        cases behind with
        | nil => exact relocate_otherwise hblock []
        | cons u behind =>
          rw [relocate_cons]
          dsimp only
          rw [Token.kind_relocate]
          cases u.kind with
          | keyword word =>
            cases word with
            | ila =>
              dsimp only
              rw [← hbranch]
              refine relocate_bind fun r hrun => ?_
              obtain ⟨b, rest⟩ := r
              have hlt : rest.length < behind.length := branch.consumes hrun
              rw [relocate_mk]
              dsimp only
              rw [← relocate_alternatives hbranch hblock rest]
              exact relocate_bind fun _ _ => rfl
            | _ => exact relocate_otherwise hblock (u :: behind)
          | _ => exact relocate_otherwise hblock (u :: behind)
      | _ => rfl
    | _ => rfl
termination_by ts.length

variable (hexpr : Commutes f expr) (hblock : Commutes f block)

include hexpr

theorem relocate_print (position : Position) (ts : List Token) :
    relocate f ((print expr position).run ts) =
      (print expr (f position)).run (relocate f ts) := by
  change relocate f ((separated expr).run ts >>= _) = (separated expr).run (relocate f ts) >>= _
  rw [← commutes_separated hexpr]
  exact relocate_bind fun _ _ => rfl

omit hexpr in
theorem target?_relocate (ts : List Token) :
    target? (relocate f ts) = (target? ts).map fun (name, rest) => (name, relocate f rest) := by
  match ts with
  | [] => rfl
  | [t] => rfl
  | t :: u :: rest =>
    rw [relocate_cons, relocate_cons, target?, target?, Token.kind_relocate, Token.kind_relocate]
    split <;> rfl

theorem relocate_simple (position : Position) (ts : List Token) :
    relocate f ((simple expr position).run ts) =
      (simple expr (f position)).run (relocate f ts) := by
  rw [simple, simple]
  dsimp only
  rw [target?_relocate]
  cases target? ts with
  | none =>
    dsimp only [Option.map_none]
    rw [← hexpr]
    exact relocate_bind fun _ _ => rfl
  | some assigned =>
    dsimp only [Option.map_some]
    rw [← hexpr]
    exact relocate_bind fun _ _ => rfl

include hblock

theorem relocate_conditional (position : Position) (ts : List Token) :
    relocate f ((conditional expr block position).run ts) =
      (conditional expr block (f position)).run (relocate f ts) := by
  have hguarded := commutes_guarded hexpr hblock
  rw [conditional, conditional]
  dsimp only
  rw [← hguarded]
  refine relocate_bind fun r _ => ?_
  obtain ⟨b, rest⟩ := r
  rw [relocate_mk]
  dsimp only
  rw [← relocate_alternatives hguarded hblock]
  refine relocate_bind fun r _ => ?_
  obtain ⟨⟨bs, otherwise⟩, rest⟩ := r
  exact congrArg (fun st => Except.ok (st, relocate f rest))
    (Statement.relocate_conditional (b :: bs) otherwise position)

theorem relocate_loop (position : Position) (ts : List Token) :
    relocate f ((loop expr block position).run ts) =
      (loop expr block (f position)).run (relocate f ts) := by
  rw [loop, loop]
  dsimp only
  rw [← commutes_guarded hexpr hblock]
  refine relocate_bind fun r _ => ?_
  obtain ⟨⟨condition, body⟩, rest⟩ := r
  exact congrArg (fun st => Except.ok (st, relocate f rest))
    (Statement.relocate_loop condition body position)

omit hexpr hblock in
theorem relocate_termination (position : Position) (ts : List Token) :
    relocate f (termination position ts) = termination (f position) (relocate f ts) := by
  cases ts with
  | nil => rfl
  | cons t rest =>
    rw [relocate_cons, termination, termination, Token.isTerminator_relocate]
    split <;> rfl

theorem relocate_statementAt (t : Token) (rest : List Token) :
    relocate f (statementAt expr block t rest) =
      statementAt expr block (relocate f t) (relocate f rest) := by
  have hsimple := relocate_simple hexpr t.position (t :: rest)
  have hunexpected := ParseError.relocate_unexpected (f := f) t "a statement"
  rw [statementAt, statementAt, Token.kind_relocate, Token.position_relocate]
  cases t.kind with
  | keyword word =>
    cases word with
    | khlas => exact relocate_termination t.position rest
    | kteb => exact relocate_print hexpr t.position rest
    | ila => exact relocate_conditional hexpr hblock t.position rest
    | mazal => exact relocate_loop hexpr hblock t.position rest
    | wila => exact congrArg Except.error hunexpected
    | walou => exact hsimple
  | _ => exact hsimple

theorem commutes_statementWith (hf : f .unknown = .unknown) :
    Commutes f (statementWith expr block) := by
  intro ts
  cases ts with
  | nil =>
    change Except.error (⟨_, f .unknown⟩ : Complaint) = _
    rw [hf]
    rfl
  | cons t rest => exact relocate_statementAt hexpr hblock t rest

end Compound

theorem commutes_statement (hf : f .unknown = .unknown) : (levels : Nat) →
    Commutes f (statement levels)
  | 0 => commutes_statementWith (commutes_expression hf 0) (commutes_blockAround hf nofun) hf
  | levels + 1 => commutes_statementWith (commutes_expression hf (levels + 1))
    (commutes_blockAround hf fun p hp => by cases hp; exact commutes_statement hf levels) hf

/-! ## Lines -/

theorem relocate_checkEnd (ts : List Token) :
    relocate f (checkEnd ts) = checkEnd (relocate f ts) := by
  rw [checkEnd, checkEnd, skipLineEnds_relocate]
  cases skipLineEnds ts with
  | nil => rfl
  | cons t rest =>
    have hunexpected := ParseError.relocate_unexpected (f := f) t "end of line"
    obtain ⟨kind, lexeme, position⟩ := t
    cases kind with
    | error c => exact congrArg Except.error hunexpected
    | keyword word => cases word <;> rfl
    | _ => rfl

end Parser

namespace Statement

theorem ofTokens?_relocate (hf : f .unknown = .unknown) (ts : List Token) :
    ofTokens? (relocate f ts) = relocate f (ofTokens? ts) := by
  rw [ofTokens?, ofTokens?, Parser.skipLineEnds_relocate, ← Parser.commutes_statement hf]
  refine (relocate_bind fun r _ => ?_).symm
  obtain ⟨st, rest⟩ := r
  rw [relocate_mk]
  dsimp only
  rw [← Parser.relocate_checkEnd]
  exact relocate_bind fun _ _ => rfl

/-- **A line is read alike wherever it stands.** -/
theorem ofTokens_relocate (hf : f .unknown = .unknown) (ts : List Token) :
    ofTokens (relocate f ts) = relocate f (ofTokens ts) := by
  rw [ofTokens, ofTokens, ofTokens?_relocate hf]
  cases ofTokens? ts <;> rfl

end Statement

end DarjaLang
