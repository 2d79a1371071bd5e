import Recognizer.Rejection
import Recognizer.Text.Slice

/-!
# Outcomes

Applying a pattern to an input either accepts a leading part of it or rejects it. Patterns describe
what they accepted by what they left: `Outcome.fromRemainder` rebuilds the match from the remainder
and refuses a remainder that is not the end of the input.
-/

namespace Recognizer

/-- The answer of a pattern to an input. -/
inductive Outcome where
  /-- `consumed` is the accepted part and `remainder` all that follows it. -/
  | matched (consumed remainder : Slice)
  | rejected (rejection : Rejection)
  deriving DecidableEq

namespace Outcome

/-- Accept nothing. -/
def empty (input : Slice) : Outcome :=
  .matched input.nothing input

/-- Reject at the start of the input. -/
def refuse (cause : Cause) : Outcome :=
  .rejected { cause }

/-- Reject `offset` bytes into the input. -/
def refuseAt (cause : Cause) (offset : Nat) : Outcome :=
  .rejected { cause, offset }

/-- Accept the first `n` bytes. -/
def split (input : Slice) (n : Nat) : Outcome :=
  match input.splitAt? n with
  | some (consumed, remainder) => .matched consumed remainder
  | none => refuse .notABoundary

/-- Accept all that comes before `remainder`. -/
def fromRemainder (input remainder : Slice) : Outcome :=
  match input.before? remainder with
  | some consumed => .matched consumed remainder
  | none => refuse .foreignRemainder

/-- Was a part of the input accepted, be it empty? -/
def isMatched : Outcome → Bool
  | matched _ _ => true
  | rejected _ => false

/-- Was the empty part of the input accepted? -/
def isEmptyMatch : Outcome → Bool
  | matched consumed _ => consumed.isEmpty
  | rejected _ => false

/-- What is left of the input after a match. -/
def remainder? : Outcome → Option Slice
  | matched _ remainder => some remainder
  | rejected _ => none

/-- Change the rejection, if it is one. -/
def mapRejection (f : Rejection → Rejection) : Outcome → Outcome
  | matched consumed remainder => .matched consumed remainder
  | rejected e => .rejected (f e)

/-- Count the offset of a rejection from a point `n` bytes earlier. -/
def shifted (o : Outcome) (n : Nat) : Outcome :=
  o.mapRejection (·.shifted n)

/-- How many bytes of `input` were accepted. -/
def length? (input : Slice) (o : Outcome) : Option Nat :=
  o.remainder?.map input.progress

/-- A match as its two slices, a rejection as itself. -/
def toExcept : Outcome → Except Rejection (Slice × Slice)
  | matched consumed remainder => .ok (consumed, remainder)
  | rejected e => .error e

/-- The outcome that `toExcept` shows in this way. -/
def ofExcept : Except Rejection (Slice × Slice) → Outcome
  | .ok (consumed, remainder) => .matched consumed remainder
  | .error e => .rejected e

/-- What can be read off an outcome: texts and wordings, but not where a text is kept. -/
inductive View where
  | matched (consumed remainder : String)
  | rejected (message : String) (offset : Nat) (context : Option String)
  deriving DecidableEq

/-- The view of an outcome. -/
def view : Outcome → View
  | matched consumed remainder => .matched consumed.toString remainder.toString
  | rejected e => .rejected e.message e.offset e.context

end Outcome

end Recognizer
