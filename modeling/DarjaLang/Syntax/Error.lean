import DarjaLang.Diagnostic
import DarjaLang.Token.Basic

/-!
# What can be wrong with a line

The causes for which a line is not a statement.  A faulty character or literal is only complained
about where the reader trips over it; `ParseError.unexpected` decides what a token that does not
fit is called, so that a lexical fault is always reported as such.
-/

set_option autoImplicit false

namespace DarjaLang

/-- Faults of single tokens. -/
inductive LexicalError
  | unrecognizedCharacter (character : Char)
  | invalidString
  deriving DecidableEq, Repr

/-- Faults of a line. -/
inductive ParseError
  | lexical (error : LexicalError)
  | unexpectedToken (found expected : String)
  | incompleteExpression (expected : String)
  | unmatchedDelimiter (delimiter : Char)
  | trailingTokens (found : String)
  | misplacedSentinel
  | unterminatedBlock
  | nestingTooDeep
  deriving DecidableEq, Repr

/-- A character as it is shown in a message: printable ASCII as itself, with a backslash in front
of quotes and backslashes, and everything else by a name or its code point. -/
def escapedText (c : Char) : String :=
  match c with
  | '\t' => "\\t"
  | '\r' => "\\r"
  | '\n' => "\\n"
  | '\'' => "\\'"
  | '"' => "\\\""
  | '\\' => "\\\\"
  | c =>
    if 0x20 ≤ c.toNat ∧ c.toNat ≤ 0x7e then c.toString
    else "\\u\x7b" ++ String.ofList (Nat.toDigits 16 c.toNat) ++ "\x7d"

/-- The wording of a lexical fault. -/
def LexicalError.message : LexicalError → String
  | unrecognizedCharacter c => "Unrecognized character '" ++ escapedText c ++ "'."
  | invalidString => "Unterminated string or unknown escape sequence."

namespace ParseError

/-- The wording of a fault. -/
def message : ParseError → String
  | lexical error => error.message
  | unexpectedToken found expected =>
    "Unexpected token " ++ found ++ ", expected " ++ expected ++ "."
  | incompleteExpression expected => "Incomplete expression, expected " ++ expected ++ "."
  | unmatchedDelimiter delimiter => "Unmatched '" ++ delimiter.toString ++ "'."
  | trailingTokens found => "Extra tokens after statement. Check your input: " ++ found
  | misplacedSentinel => "'khlas' must stand alone on its own line."
  | unterminatedBlock => "Block opened here is never closed."
  | nestingTooDeep => "Expression is nested too deeply."

/-- The complaint about a token that does not fit, or about a missing one. -/
def unexpected (found : Option Token) (expected : String) : Diagnostic ParseError :=
  match found with
  | none => ⟨incompleteExpression expected, .unknown⟩
  | some t =>
    match t.kind with
    | .error c =>
      if c = '"' then ⟨lexical .invalidString, t.position⟩
      else ⟨lexical (.unrecognizedCharacter c), t.position⟩
    | .endOfLine | .endOfInput => ⟨incompleteExpression expected, t.position⟩
    | _ => ⟨unexpectedToken t.describe expected, t.position⟩

end ParseError

end DarjaLang
