import Recognizer.Main
import Recognizer.Proofs.Command.Checking
import Recognizer.Proofs.Json.Resolutions
import Recognizer.Proofs.Json.Viability
import Recognizer.Proofs.Json.Widening
import Recognizer.Proofs.Workbench.Split
import Recognizer.Proofs.Workbench.Wording
import Recognizer.Proofs.Workbench.Ledger
import Recognizer.Proofs.Workbench.Lifetime
import Recognizer.Proofs.Peg.Adequacy
import Recognizer.Proofs.Pattern.Causes
import Recognizer.Proofs.Json.Causes
import Recognizer.Proofs.Pattern.Foreign
import Recognizer.Proofs.Json.Malformed
import Recognizer.Proofs.Pattern.Elements
import Recognizer.Proofs.Pattern.Closed
import Recognizer.Proofs.Json.Numbers
import Recognizer.Proofs.Json.Strings
import Recognizer.Proofs.Pattern.Contexts
import Recognizer.Proofs.Json.StrictStrings
import Recognizer.Proofs.Json.Dispatch
import Recognizer.Proofs.Pattern.Alternation
import Recognizer.Proofs.Pattern.Trailing
import Recognizer.Proofs.Json.Reparsing
import Recognizer.Proofs.Command.Matching
import Recognizer.Proofs.Pattern.Idempotence
import Recognizer.Proofs.Pattern.Remainders
import Recognizer.Proofs.Command.Arguments
import Recognizer.Proofs.Command.Rendering
