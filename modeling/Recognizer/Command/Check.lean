import Recognizer.Command.Report
import Recognizer.Json.Recognize

/-!
# Checking files

Each file is to be one JSON document. Reports come in the order of the paths, one for each.
-/

namespace Recognizer.Command

/-- What becomes of the file at a path. -/
def checkFile (read : String → Except Files.ReadError String) (path : String) :
    Except Failure Verdict :=
  match read path with
  | .error error => .ok (.unreadable (.ofRead path error))
  | .ok text =>
    match Json.recognize .rfc8259 .document false (.ofString 0 text) with
    | .ok (.matched _ _) => .ok .accepted
    | .ok (.rejected e) => .ok (.rejected e)
    | .error e => .error (.grammar e)

/-- Check the files at some paths. Only a grammar that cannot be built stops the others from being
checked. -/
def checkFiles (read : String → Except Files.ReadError String) (paths : List String) :
    Except Failure (List FileReport) :=
  paths.mapM fun path => return ⟨path, ← checkFile read path⟩

end Recognizer.Command
