import DarjaLang.Operator
import DarjaLang.Position

/-!
# Tokens

A token is a kind, the exact characters it was written with, and the place where it starts.  The
kind carries what later stages need: an integer keeps its digits, because its range is checked
only when it is evaluated, while a float and a string are already resolved.

The keywords are `khlas` (the end of the program), `kteb` (print), `ila` and `wila` (if and else),
`mazal` (while) and `walou` (no value).
-/

set_option autoImplicit false

namespace DarjaLang

/-- The reserved words that are not truth values. -/
inductive Keyword
  | walou
  | khlas
  | kteb
  | ila
  | wila
  | mazal
  deriving DecidableEq, Repr

namespace Token

/-- What a token is. -/
inductive Kind
  | float (value : Float)
  | integer (digits : String)
  | string (text : String)
  | boolean (value : Bool)
  | keyword (word : Keyword)
  | identifier (name : String)
  | operator (op : BinaryOperator)
  /-- The exclamation mark. -/
  | bang
  /-- A single equals sign. -/
  | assign
  | leftParen
  | rightParen
  | leftBrace
  | rightBrace
  | comma
  /-- The end of a line, or of a text that does not end with a newline. -/
  | endOfLine
  /-- The explicit end of a token list. -/
  | endOfInput
  | comment
  | ignored
  /-- A character that starts no token; a double quote stands for a whole faulty literal. -/
  | error (character : Char)

/-- The rough class of a token kind. -/
inductive Category
  | identifier
  | number
  | string
  | operator
  | keyword
  | endOfLine
  | endOfInput
  | invalid
  deriving DecidableEq, Repr

/-- The name of a class. -/
def Category.name : Category → String
  | identifier => "identifier"
  | number => "number"
  | string => "string"
  | operator => "operator"
  | keyword => "keyword"
  | endOfLine => "end of line"
  | endOfInput => "end of input"
  | invalid => "invalid character"

namespace Kind

/-- The class of a kind. -/
def category : Kind → Category
  | float _ | integer _ => .number
  | string _ => .string
  | boolean _ | keyword _ => .keyword
  | identifier _ => .identifier
  | endOfLine | comment | ignored => .endOfLine
  | endOfInput => .endOfInput
  | error _ => .invalid
  | operator _ | bang | assign | leftParen | rightParen | leftBrace | rightBrace | comma =>
    .operator

/-- The kinds that end a line or the whole input. -/
def isTerminator : Kind → Bool
  | endOfLine | endOfInput => true
  | _ => false

/-- The binary operator that a kind stands for. -/
def operator? : Kind → Option BinaryOperator
  | operator op => some op
  | _ => none

/-- The minus sign, which is also written in front of an operand. -/
@[match_pattern] abbrev minus : Kind := operator (.arithmetic .subtract)

end Kind

end Token

/-- A token with its text and its place. -/
structure Token where
  kind : Token.Kind
  lexeme : String
  position : Position

namespace Token

/-- The marker that closes a token list. -/
def endOfInput (position : Position) : Token := ⟨.endOfInput, "", position⟩

/-- Ends a line or the whole input. -/
def isTerminator (t : Token) : Bool := t.kind.isTerminator

/-- How a diagnostic names a token. -/
def describe (t : Token) : String :=
  match t.kind with
  | .endOfLine => "end of line"
  | .endOfInput => "end of input"
  | _ => "'" ++ t.lexeme ++ "'"

end Token

end DarjaLang
