import Recognizer.Files.ReadError
import Recognizer.Grammar.Rule

/-!
# Failures of a command

What keeps a command from reaching an outcome. A rejected input is no failure.
-/

namespace Recognizer.Command

/-- Why a command came to no outcome. -/
inductive Failure where
  | notFound (path : String)
  | permissionDenied (path : String)
  | invalidUtf8 (path : String)
  /-- Any other failure to read a file, in the words of the system. -/
  | unreadable (path cause : String)
  | unknownRule (name : String)
  | unknownOption (option : String)
  | unexpectedArgument (argument : String)
  /-- An argument that has to be given. -/
  | missing (what : String)
  | grammar (error : GrammarError)
  deriving DecidableEq

namespace Failure

/-- The wording of a failure. -/
def message : Failure → String
  | notFound path => "cannot find file '" ++ path ++ "'"
  | permissionDenied path => "permission denied reading '" ++ path ++ "'"
  | invalidUtf8 path => "'" ++ path ++ "' contains invalid UTF-8 data"
  | unreadable path cause => "error reading '" ++ path ++ "': " ++ cause
  | unknownRule name =>
    "unknown rule '" ++ name ++
      "' (expected one of: value, object, array, string, number, whitespace)"
  | unknownOption option => "unknown option '" ++ option ++ "'"
  | unexpectedArgument argument => "unexpected argument '" ++ argument ++ "'"
  | missing what => "missing " ++ what
  | grammar error => error.message

/-- The failure to read the file at `path`. -/
def ofRead (path : String) (error : Files.ReadError) : Failure :=
  match error.kind with
  | .notFound => .notFound path
  | .permissionDenied => .permissionDenied path
  | .invalidData => .invalidUtf8 path
  | .other => .unreadable path error.text

end Failure

end Recognizer.Command
