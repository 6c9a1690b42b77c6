import DarjaLang.Lines
import DarjaLang.Session.Basic

/-!
# The program

`CommandLine.execute` says what the program does for given options: what it writes to its two
outputs and the code it exits with.  Errors of the language are part of the output and do not
matter for the exit code; it is one if an input could not be read.
-/

set_option autoImplicit false

namespace DarjaLang

namespace CommandLine

/-- An input as lines, of which each may fail to be read. -/
abbrev Input := List (Except StreamError String)

/-- What the arguments of the program say. -/
structure Options where
  /-- The program; standard input if there is none. -/
  file : Option String
  /-- Whether the values of expression statements are written out. -/
  echo : Bool
  /-- The greatest number of passes of a loop. -/
  limit : Option UInt64
  /-- Whether the banner and the last line are left out. -/
  quiet : Bool
  deriving DecidableEq, Repr

/-- What the program leaves behind. -/
structure Exit where
  code : Nat
  stdout : String
  stderr : String
  deriving DecidableEq, Repr

/-- What is written before anything else. -/
def banner : String :=
  "DarjaLang v0.4 interactive mode\n" ++
    "Type your program line by line. Finish with 'khlas' on a line.\n"

/-- What is written at the end of a complete run. -/
def farewell : String := "Program finished!\n"

/-- The line that reports a failure of the program itself. -/
def failureText (context : Option String) (e : StreamError) : String :=
  match context with
  | none => "darja: " ++ e.message ++ "\n"
  | some what => "darja: " ++ what ++ ": " ++ e.message ++ "\n"

/-- The setup of the session that options ask for. -/
def Options.configuration (o : Options) : Configuration := ⟨o.echo, o.limit⟩

/-- Runs a program from an input; `context` says what failed if reading does. -/
def runInput (bound : Nat) (o : Options) (context : Option String) (input : Input) :
    Option Exit :=
  let opening := if o.quiet then "" else banner
  let closing := if o.quiet then "" else farewell
  match (Session.start o.configuration).feedAll bound input .working with
  | none => none
  | some (a, _) =>
    match a.failure with
    | some e => some ⟨1, opening ++ a.sink.text, failureText context e⟩
    | none => some ⟨0, opening ++ a.sink.text ++ closing, ""⟩

/-- Runs a program from where the options say, given standard input and a way to open files. -/
def execute (bound : Nat) (o : Options) (stdin : Input)
    (openFile : String → Except StreamError Input) : Option Exit :=
  match o.file with
  | none => runInput bound o none stdin
  | some path =>
    match openFile path with
    | .error e =>
      some ⟨1, if o.quiet then "" else banner,
        failureText (some ("failed to open '" ++ path ++ "'")) e⟩
    | .ok input => runInput bound o (some ("failed while running '" ++ path ++ "'")) input

end CommandLine

end DarjaLang
