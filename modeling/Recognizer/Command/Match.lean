import Recognizer.Command.Failure
import Recognizer.Json.Recognize

/-!
# Matching one rule against a text

The rule names of the command line, its arguments, and the match itself.
-/

namespace Recognizer.Command

/-- The rules that can be asked for by name. -/
inductive RuleName where
  | value
  | object
  | array
  | string
  | number
  | whitespace
  deriving DecidableEq

namespace RuleName

/-- The name itself. -/
def text : RuleName → String
  | value => "value"
  | object => "object"
  | array => "array"
  | string => "string"
  | number => "number"
  | whitespace => "whitespace"

/-- All rule names. -/
def all : List RuleName :=
  [value, object, array, string, number, whitespace]

/-- The rule of a name. -/
def ofText (name : String) : Except Failure RuleName :=
  match all.find? (·.text == name) with
  | some rule => .ok rule
  | none => .error (.unknownRule name)

/-- The entry point of a rule. -/
def entry : RuleName → Json.Entry
  | value => .value
  | object => .object
  | array => .array
  | string => .string
  | number => .number
  | whitespace => .whitespace

end RuleName

/-- How to match. -/
structure MatchOptions where
  rule : RuleName := .value
  /-- Are `true`, `false` and `null` values? -/
  literals : Bool := false
  /-- Must the whole text be consumed? -/
  strict : Bool := false
  deriving DecidableEq

/-- The arguments of a match that have been read so far. -/
structure MatchArguments where
  options : MatchOptions := {}
  text : Option String := none
  /-- Has a lone `--` ended the flags? -/
  flagsDone : Bool := false
  deriving DecidableEq

namespace MatchArguments

/-- Read one argument. What does not start with two dashes is text, and so is all that follows a
lone `--`. -/
def read (args : MatchArguments) (arg : String) : Except Failure MatchArguments :=
  if args.flagsDone || !"--".toList.isPrefixOf arg.toList then
    match args.text with
    | none => .ok { args with text := some arg }
    | some _ => .error (.unexpectedArgument arg)
  else if arg = "--" then .ok { args with flagsDone := true }
  else if "--rule=".toList.isPrefixOf arg.toList then do
    let rule ← RuleName.ofText (String.ofList (arg.toList.drop "--rule=".length))
    return { args with options := { args.options with rule } }
  else if arg = "--literals" then
    .ok { args with options := { args.options with literals := true } }
  else if arg = "--strict" then
    .ok { args with options := { args.options with strict := true } }
  else .error (.unknownOption arg)

end MatchArguments

/-- Read `[--rule=<name>] [--literals] [--strict] <text>`, flags before or after the text. -/
def parseMatchArguments (args : List String) : Except Failure (MatchOptions × String) := do
  let read ← args.foldlM MatchArguments.read {}
  match read.text with
  | some text => return (read.options, text)
  | none => throw (.missing "text to match")

/-- Match the rule that the options select against a text. -/
def matchText (text : String) (options : MatchOptions) : Except Failure Outcome :=
  (Json.recognize { literals := options.literals } options.rule.entry options.strict
    (.ofString 0 text)).mapError .grammar

end Recognizer.Command
