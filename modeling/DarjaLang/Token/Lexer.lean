import DarjaLang.Binary64.Decimal
import DarjaLang.Token.Basic

/-!
# From text to tokens

No token, comment or string ever reaches across a newline, so a text is cut into lines first and
each line is scanned on its own.  Within a line the scan goes character by character: a character
either starts a *piece* (a token or a gap between tokens) or belongs to the piece that was
recognised before it.  That keeps the scan structurally recursive; how far a piece reaches is
decided at its first character, and it is always as far as possible.

* `Token.pieceAt` recognises the piece that starts at a character.
* `Token.scanLine` lists the tokens of one line, without its end.
* `Token.scan` does so for a whole text and puts an end of line token behind each line.  Only the
  last line has one with an empty lexeme, and a newline at the end of the text starts no new line.
-/

set_option autoImplicit false

namespace DarjaLang

namespace Token

/-- What starts at a character, and how many further characters belong to it. -/
inductive Piece
  /-- Blanks and comments. -/
  | gap (more : Nat)
  | token (kind : Kind) (more : Nat)

/-! ## Recognising one piece -/

/-- The characters that separate tokens inside a line. -/
def isBlank (c : Char) : Bool := c == ' ' || c == '\t' || c == '\r' || c == '\x0c'

/-- The keyword, truth value or identifier that a word is. -/
def wordKind : String → Kind
  | "sah" => .boolean true
  | "ghalet" => .boolean false
  | "walou" => .keyword .walou
  | "khlas" => .keyword .khlas
  | "kteb" => .keyword .kteb
  | "ila" => .keyword .ila
  | "wila" => .keyword .wila
  | "mazal" => .keyword .mazal
  | name => .identifier name

/-- The characters that a word may go on with. -/
def isWordChar (c : Char) : Bool := c.isAlphanum || c == '_'

/-- A letter and the letters, digits and underscores behind it. -/
def wordAt (c : Char) (rest : List Char) : Piece :=
  let tail := rest.takeWhile isWordChar
  .token (wordKind (String.ofList (c :: tail))) tail.length

/-- A run of digits; with a point and digits behind it, a float. -/
def numberAt (c : Char) (rest : List Char) : Piece :=
  let whole := rest.takeWhile Char.isDigit
  let integer := Piece.token (.integer (String.ofList (c :: whole))) whole.length
  match rest.drop whole.length with
  | '.' :: behind =>
    let part := behind.takeWhile Char.isDigit
    if part.isEmpty then integer
    else .token (.float (Binary64.ofDigits (c :: whole) part)) (whole.length + 1 + part.length)
  | _ => integer

/-- The body of a string literal up to its closing quote; none if the line ends first.  A
backslash takes the character behind it along, so an escaped quote does not close. -/
def stringBody? : List Char → Option (List Char)
  | [] => none
  | ['\\'] => none
  | '\\' :: c :: rest => (stringBody? rest).map ('\\' :: c :: ·)
  | c :: rest => if c = '"' then some [] else (stringBody? rest).map (c :: ·)

/-- What the character behind a backslash stands for. -/
def escape? : Char → Option Char
  | 'n' => some '\n'
  | 't' => some '\t'
  | '"' => some '"'
  | '\\' => some '\\'
  | _ => none

/-- The text that a literal's body stands for; none if it has an unknown escape. -/
def unescape? : List Char → Option (List Char)
  | [] => some []
  | ['\\'] => none
  | '\\' :: c :: rest =>
    match escape? c, unescape? rest with
    | some d, some ds => some (d :: ds)
    | _, _ => none
  | c :: rest => (unescape? rest).map (c :: ·)

/-- A string literal behind its opening quote.  Without a closing quote the rest of the line is
one error token; with an unknown escape the whole literal is. -/
def stringAt (rest : List Char) : Piece :=
  match stringBody? rest with
  | none => .token (.error '"') rest.length
  | some body =>
    match unescape? body with
    | some text => .token (.string (String.ofList text)) (body.length + 1)
    | none => .token (.error '"') (body.length + 1)

/-- An operator or a delimiter, two characters wherever two fit; any other character is an error
token of its own. -/
def symbolAt : Char → List Char → Piece
  | '=', '=' :: _ => .token (.operator (.comparison .equal)) 1
  | '!', '=' :: _ => .token (.operator (.comparison .notEqual)) 1
  | '<', '=' :: _ => .token (.operator (.comparison .lessEqual)) 1
  | '>', '=' :: _ => .token (.operator (.comparison .greaterEqual)) 1
  | '&', '&' :: _ => .token (.operator (.connective .and)) 1
  | '|', '|' :: _ => .token (.operator (.connective .or)) 1
  | '+', _ => .token (.operator (.arithmetic .add)) 0
  | '-', _ => .token .minus 0
  | '*', _ => .token (.operator (.arithmetic .multiply)) 0
  | '/', _ => .token (.operator (.arithmetic .divide)) 0
  | '%', _ => .token (.operator (.arithmetic .remainder)) 0
  | '<', _ => .token (.operator (.comparison .less)) 0
  | '>', _ => .token (.operator (.comparison .greater)) 0
  | '=', _ => .token .assign 0
  | '!', _ => .token .bang 0
  | '(', _ => .token .leftParen 0
  | ')', _ => .token .rightParen 0
  | '{', _ => .token .leftBrace 0
  | '}', _ => .token .rightBrace 0
  | ',', _ => .token .comma 0
  | c, _ => .token (.error c) 0

/-- Two slashes: a comment, which a carriage return ends. -/
def startsComment (c : Char) (rest : List Char) : Bool := c == '/' && rest.head? == some '/'

/-- The longest piece that starts with `c` on a line that goes on with `rest`. -/
def pieceAt (c : Char) (rest : List Char) : Piece :=
  if isBlank c then .gap 0
  else if startsComment c rest then .gap (rest.takeWhile (· != '\r')).length
  else if c.isAlpha then wordAt c rest
  else if c.isDigit then numberAt c rest
  else if c == '"' then stringAt rest
  else symbolAt c rest

/-! ## Lines and texts -/

/-- The tokens of a line from some place on, of which the first `skip` characters belong to a
piece that started earlier. -/
def scanFrom (place : Position) : (skip : Nat) → List Char → List Token
  | _, [] => []
  | skip + 1, _ :: rest => scanFrom ⟨place.line, place.column + 1⟩ skip rest
  | 0, c :: rest =>
    match pieceAt c rest with
    | .gap more => scanFrom ⟨place.line, place.column + 1⟩ more rest
    | .token kind more =>
      ⟨kind, String.ofList (c :: rest.take more), place⟩ ::
        scanFrom ⟨place.line, place.column + 1⟩ more rest

/-- The tokens of a line that holds no newline, without the end of the line. -/
def scanLine (line : Nat) (cs : List Char) : List Token := scanFrom ⟨line, 1⟩ 0 cs

/-- The token that stands for the end of a line. -/
def lineEnd (line : Nat) (cs : List Char) (lexeme : String) : Token :=
  ⟨.endOfLine, lexeme, ⟨line, cs.length + 1⟩⟩

/-- The tokens of a text whose first line has been read up to here; `read` holds that part, last
character first. -/
def scanLines (line : Nat) (read : List Char) : List Char → List Token
  | [] =>
    let cs := read.reverse
    scanLine line cs ++ [lineEnd line cs ""]
  | '\n' :: rest =>
    let cs := read.reverse
    scanLine line cs ++ lineEnd line cs "\n" ::
      if rest.isEmpty then [] else scanLines (line + 1) [] rest
  | c :: rest => scanLines line (c :: read) rest

/-- The tokens of a text whose first line has the given number. -/
def scan (text : String) (firstLine : Nat) : List Token := scanLines firstLine [] text.toList

end Token

end DarjaLang
