import Recognizer.Command.Failure
import Recognizer.Outcome
import Recognizer.Text.Quoted

/-!
# Reports

The lines in which results are shown.
-/

namespace Recognizer.Command

/-- An outcome in one line: both parts of a match in quotes, or the rejection. -/
def renderOutcome : Outcome → String
  | .matched consumed remainder =>
    "Matched(" ++ Text.quote consumed.toString ++ ", " ++ Text.quote remainder.toString ++ ")"
  | .rejected e => "Rejected(" ++ e.describe ++ ")"

/-- What became of a file. -/
inductive Verdict where
  /-- The whole file is one document. -/
  | accepted
  /-- It could be read and is no document. -/
  | rejected (rejection : Rejection)
  | unreadable (failure : Failure)
  deriving DecidableEq

/-- Is the file accepted? -/
def Verdict.isAccepted : Verdict → Bool
  | accepted => true
  | _ => false

/-- A path and what became of the file there. -/
structure FileReport where
  path : String
  verdict : Verdict
  deriving DecidableEq

/-- A file report in one line. -/
def FileReport.render (report : FileReport) : String :=
  match report.verdict with
  | .accepted => "ok " ++ report.path
  | .rejected e => report.path ++ ": " ++ e.describe
  | .unreadable failure => report.path ++ ": " ++ failure.message

end Recognizer.Command
