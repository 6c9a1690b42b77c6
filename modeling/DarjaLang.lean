import DarjaLang.Main
import DarjaLang.Proofs.CommandLine.Program
import DarjaLang.Proofs.Environment
import DarjaLang.Proofs.Evaluation.Decimal
import DarjaLang.Proofs.Evaluation.Effects
import DarjaLang.Proofs.Evaluation.Finite
import DarjaLang.Proofs.Evaluation.Limit
import DarjaLang.Proofs.Evaluation.Strict
import DarjaLang.Proofs.Evaluation.Variables
import DarjaLang.Proofs.Grammar.Statement.Nesting
import DarjaLang.Proofs.Machine.Session
import DarjaLang.Proofs.Session.AfterEnd
import DarjaLang.Proofs.Session.Echo
import DarjaLang.Proofs.Session.Lexical
import DarjaLang.Proofs.Session.Literal
import DarjaLang.Proofs.Session.Locality
import DarjaLang.Proofs.Session.Printing
import DarjaLang.Proofs.Session.ShiftDown
import DarjaLang.Proofs.Session.Wording
import DarjaLang.Proofs.Value.Extremum
