import Recognizer.Command.CommandLine
import Recognizer.Files.Tree

/-!
# The program

Reads the files that the arguments name, and leaves the rest to `runCommandLine`.
-/

namespace Recognizer

open Files

/-- The words of the system and its number for an error, which may come with either sign. -/
def describeError (details : String) (code : UInt32) : String :=
  details.capitalize ++ " (os error " ++ toString code.toInt32.toInt.natAbs ++ ")"

/-- A failure of the system to read a file. -/
def readErrorOf : IO.Error → ReadError
  | .noFileOrDirectory .. => .noSuchFile
  | .permissionDenied _ code details => ⟨.permissionDenied, describeError details code⟩
  | .alreadyExists _ code details | .interrupted _ code details | .invalidArgument _ code details
  | .resourceExhausted _ code details | .inappropriateType _ code details
  | .noSuchThing _ code details => ⟨.other, describeError details code⟩
  | .otherError code details | .resourceBusy code details | .resourceVanished code details
  | .unsupportedOperation code details | .hardwareFault code details
  | .unsatisfiedConstraints code details | .illegalOperation code details
  | .protocolError code details | .timeExpired code details =>
    ⟨.other, describeError details code⟩
  | e => ⟨.other, toString e⟩

/-- Read the text of a file. -/
def readFile (path : String) : IO (Except ReadError String) := do
  try
    return decode (← IO.FS.readBinFile path)
  catch e =>
    return .error (readErrorOf e)

/-- Run the program on its arguments. -/
def runProgram (args : List String) : IO UInt32 := do
  let texts ← (Command.pathsRead args).mapM fun path => return (path, ← readFile path)
  let effect := Command.runCommandLine
    (fun path => (texts.lookup path).getD (.error .noSuchFile)) args
  (← IO.getStdout).putStr effect.stdout
  (← IO.getStderr).putStr effect.stderr
  return effect.code.toUInt32

end Recognizer

/-- The command line program. -/
def main (args : List String) : IO UInt32 :=
  Recognizer.runProgram args
