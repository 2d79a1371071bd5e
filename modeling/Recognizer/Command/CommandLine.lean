import Recognizer.Command.Check
import Recognizer.Command.Match

/-!
# The command line

What the program writes to its two streams, and its exit code, as a function of its arguments and
of the files it may read.
-/

namespace Recognizer.Command

/-- All that a run of the program leaves behind. -/
structure Effect where
  stdout : String := ""
  stderr : String := ""
  code : Nat := 0
  deriving DecidableEq

/-- Lines, each with its end. -/
def unlines (lines : List String) : String :=
  String.join (lines.map (· ++ "\n"))

/-- How to use the program. -/
def usage : List String := [
  "plait: parser combinators and a JSON recognizer",
  "",
  "Usage: plait <command> [options]",
  "",
  "Commands:",
  "  check <file>...      Check that each file is one JSON document",
  "  match <text>         Run a JSON grammar rule on text",
  "  help                 Show this help message",
  "  version              Show version information",
  "",
  "Match options:",
  "  --rule=<rule>        value (default), object, array, string, number, whitespace",
  "  --literals           Accept true, false and null",
  "  --strict             Require the whole text to be consumed",
  "",
  "Logging:",
  "  RUST_LOG=<filter>    Enable tracing output (e.g. RUST_LOG=plait_comb=trace)",
  "  PLAIT_LOG_TREE=1     Indent trace output by rule nesting",
  "",
  "Examples:",
  "  plait check config.json data/*.json",
  "  plait match '[1, 2, 3] tail'",
  "  plait match --rule=number --strict -- -0.5e3"]

/-- The name and version of the program. -/
def version : String :=
  "plait 0.1.0"

/-- The one line that says why nothing was done. -/
def errorLine (failure : Failure) : String :=
  "error: " ++ failure.message

/-- Report on each file: on the accepted ones by the one stream, on the others by the other. -/
def showReports (reports : List FileReport) : Effect where
  stdout := unlines ((reports.filter (·.verdict.isAccepted)).map FileReport.render)
  stderr := unlines ((reports.filter (!·.verdict.isAccepted)).map FileReport.render)
  code := if reports.all (·.verdict.isAccepted) then 0 else 1

/-- Check the files at some paths. -/
def runCheck (read : String → Except Files.ReadError String) (paths : List String) : Effect :=
  if paths = [] then { stderr := unlines ["Usage: plait check <file>..."], code := 1 }
  else
    match checkFiles read paths with
    | .ok reports => showReports reports
    | .error failure => { stderr := unlines [errorLine failure], code := 1 }

/-- Match a rule against a text. -/
def runMatch (args : List String) : Effect :=
  match parseMatchArguments args with
  | .error failure =>
    { stderr := unlines [errorLine failure,
        "Usage: plait match [--rule=<rule>] [--literals] [--strict] <text>"]
      code := 1 }
  | .ok (options, text) =>
    match matchText text options with
    | .ok o =>
      { stdout := unlines [renderOutcome o], code := if o.isMatched then 0 else 1 }
    | .error failure => { stderr := unlines [errorLine failure], code := 1 }

/-- The paths of the files that a run of the program reads. -/
def pathsRead : List String → List String
  | [] => []
  | command :: args => if command = "check" then args else []

/-- Run the program. -/
def runCommandLine (read : String → Except Files.ReadError String) : List String → Effect
  | [] => { stdout := unlines usage }
  | command :: args =>
    if command = "check" then runCheck read args
    else if command = "match" then runMatch args
    else if command ∈ ["help", "--help", "-h"] then { stdout := unlines usage }
    else if command ∈ ["version", "--version", "-V"] then { stdout := unlines [version] }
    else
      { stdout := unlines usage
        stderr := unlines ["Unknown command: " ++ command, ""]
        code := 1 }

end Recognizer.Command
