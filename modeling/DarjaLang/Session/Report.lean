import DarjaLang.Lines
import DarjaLang.Session.Basic

/-!
# Running a whole text

`Report.ofText` feeds the lines of a text to a new session with a sink that accepts everything, and
sums up what came of it.
-/

set_option autoImplicit false

namespace DarjaLang

/-- What came of running a text. -/
structure Report where
  output : Array Item
  ending : Ending
  diagnostics : Nat
  env : Environment

namespace Report

/-- The output as one text, a line for each item. -/
def text (r : Report) : String := outputText r.output

/-- Runs a text, with at most `bound` passes through any one run of a loop. -/
def ofText (bound : Nat) (config : Configuration) (text : String) : Option Report :=
  match (Session.start config).feedAll bound ((Lines.ofText text).map .ok) .working with
  | none => none
  | some (⟨s, sink, _⟩, _) =>
    some ⟨sink.accepted, s.ending.getD .endOfInput, s.diagnostics, s.env⟩

end Report

end DarjaLang
