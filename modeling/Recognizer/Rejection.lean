/-!
# Rejections

Why an input was not accepted, how far into it, and what was being recognized there. The cause is
kept as data; `Cause.message` words it and `Rejection.describe` adds the place.
-/

namespace Recognizer

/-- Why an input was not accepted. -/
inductive Cause where
  /-- A character was needed and there was none. -/
  | noInput
  /-- The next character is not among those accepted. -/
  | mismatch
  /-- Another text stands where this one was needed. -/
  | expected (text : String)
  /-- The input is shorter than the text needed. -/
  | notEnoughInput
  /-- The input should have ended. -/
  | trailingInput
  /-- No alternative got beyond the start. -/
  | noAlternative
  /-- A scan ran out of input before its stop. -/
  | unterminated
  /-- The body of a scan matched without consuming. -/
  | noProgress
  /-- A repetition ended early on an empty match. -/
  | tooFewRepetitions (min found : Nat)
  /-- A series ended early. -/
  | tooFewElements (min found : Nat)
  /-- A cut was asked for outside the input or inside a character. -/
  | notABoundary
  /-- A remainder is not the end of the input that it is meant to remain from. -/
  | foreignRemainder
  /-- A rule was used before its definition was given. -/
  | undefinedRule (name : String)
  /-- A rule was used after its grammar was gone. -/
  | grammarDropped
  /-- Any other cause, in words. -/
  | stated (message : String)
  deriving DecidableEq

/-- The wording of a cause. -/
def Cause.message : Cause → String
  | noInput => "no input"
  | mismatch => "character mismatch"
  | expected text => "expected `" ++ text ++ "`"
  | notEnoughInput => "not enough input"
  | trailingInput => "unexpected trailing input"
  | noAlternative => "no alternative matched"
  | unterminated => "input ended before terminator"
  | noProgress => "no progress before terminator"
  | tooFewRepetitions min found =>
    "expected at least " ++ toString min ++ " repetitions, found " ++ toString found
  | tooFewElements min found =>
    "expected at least " ++ toString min ++ " elements, found " ++ toString found
  | notABoundary => "split point is not a character boundary"
  | foreignRemainder => "remainder is not a suffix of the input"
  | undefinedRule name => "rule `" ++ name ++ "` is not defined"
  | grammarDropped => "rule referenced after its grammar was dropped"
  | stated message => message

/-- A cause, the byte offset at which it arose, and what was being recognized there. -/
structure Rejection where
  cause : Cause
  offset : Nat := 0
  context : Option String := none
  deriving DecidableEq

namespace Rejection

/-- The wording of the cause. -/
def message (e : Rejection) : String :=
  e.cause.message

/-- Count the offset from a point `n` bytes earlier. -/
def shifted (e : Rejection) (n : Nat) : Rejection :=
  { e with offset := e.offset + n }

/-- Say what was being recognized, unless something more specific is said already. -/
def within (e : Rejection) (name : String) : Rejection :=
  { e with context := e.context <|> some name }

/-- State another cause for the same place. -/
def relabelled (e : Rejection) (message : String) : Rejection :=
  { e with cause := .stated message }

/-- A label words the rejections at the very start; deeper ones say more than it could. -/
def labelled (e : Rejection) (message : String) : Rejection :=
  if e.offset = 0 then e.relabelled message else e

/-- The rejection in one line. -/
def describe (e : Rejection) : String :=
  e.message ++ " at byte " ++ toString e.offset ++
    match e.context with
    | some name => " (while parsing " ++ name ++ ")"
    | none => ""

end Rejection

end Recognizer
