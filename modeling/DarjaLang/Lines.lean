import DarjaLang.Session.Output

/-!
# Lines of an input

An input, be it text or bytes, is cut at its newlines.  A carriage return right before a newline
belongs to the end of the line.  What stands behind the last newline is a line too, unless it is
empty; no newline ends it, so it keeps a carriage return at its end.

Bytes need not be text.  Each line is decoded on its own, and one that is not valid UTF-8 is a
failure to read that line; the lines before it are good.
-/

set_option autoImplicit false

namespace DarjaLang

namespace Lines

variable {α : Type} [DecidableEq α]

/-- A line without the carriage return at its end. -/
def dropReturn (carriageReturn : α) (line : List α) : List α :=
  if line.getLast? = some carriageReturn then line.dropLast else line

/-- The lines of an input whose first line has been read up to here; `read` holds that part, last
element first. -/
def cut (newline carriageReturn : α) (read : List α) : List α → List (List α)
  | [] => if read.isEmpty then [] else [read.reverse]
  | c :: rest =>
    if c = newline then
      dropReturn carriageReturn read.reverse :: cut newline carriageReturn [] rest
    else cut newline carriageReturn (c :: read) rest

/-- The lines of a text. -/
def ofText (text : String) : List String := (cut '\n' '\r' [] text.toList).map String.ofList

/-- The failure to read a line that is no text. -/
def notText : StreamError := ⟨.invalidData, "stream did not contain valid UTF-8"⟩

/-- A line of bytes as text. -/
def decode (line : List UInt8) : Except StreamError String :=
  match String.fromUTF8? ⟨line.toArray⟩ with
  | some s => .ok s
  | none => .error notText

/-- The lines of an input of bytes. -/
def ofBytes (bytes : ByteArray) : List (Except StreamError String) :=
  (cut 10 13 [] bytes.toList).map decode

end Lines

end DarjaLang
