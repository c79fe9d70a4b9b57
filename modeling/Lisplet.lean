import Lisplet.Folder
import Lisplet.Main
import Lisplet.Proofs.Arithmetic
import Lisplet.Proofs.Bindings
import Lisplet.Proofs.CallLimit
import Lisplet.Proofs.CallLog
import Lisplet.Proofs.Checked
import Lisplet.Proofs.Coincidence
import Lisplet.Proofs.DebugForm
import Lisplet.Proofs.Declarations
import Lisplet.Proofs.Dialogue
import Lisplet.Proofs.EvalLaws
import Lisplet.Proofs.Extension
import Lisplet.Proofs.Faultless
import Lisplet.Proofs.FirstExpression
import Lisplet.Proofs.FlatScope
import Lisplet.Proofs.Functions
import Lisplet.Proofs.Grammar
import Lisplet.Proofs.History
import Lisplet.Proofs.Identity
import Lisplet.Proofs.Independence
import Lisplet.Proofs.Legible
import Lisplet.Proofs.Lexing
import Lisplet.Proofs.Machine
import Lisplet.Proofs.Munch
import Lisplet.Proofs.Numerals
import Lisplet.Proofs.Outlets
import Lisplet.Proofs.Pieces
import Lisplet.Proofs.Recursion
import Lisplet.Proofs.RoundTrip
import Lisplet.Proofs.ScopeLaws
import Lisplet.Proofs.Script
import Lisplet.Proofs.Seams
import Lisplet.Proofs.Sessions
import Lisplet.Proofs.Signs
import Lisplet.Proofs.Spelling
import Lisplet.Proofs.Viable
import Lisplet.Settings
