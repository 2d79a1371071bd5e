import Recognizer.Grammar.Held
import Recognizer.Pattern.Machine

/-!
# Matchers

A pattern with the store that it refers to. Nothing but the pattern keeps the tables alive.
-/

namespace Recognizer

/-- A pattern and the store of the rules that it refers to. -/
structure Matcher where
  pattern : Pattern Link
  store : Store

namespace Matcher

/-- The scope of the pattern when nothing else is in use. -/
def scope (m : Matcher) : Scope :=
  .ofRoots m.store m.pattern.keeps

/-- The same, on condition that the whole input is consumed. -/
def complete (m : Matcher) : Matcher :=
  { m with pattern := m.pattern.complete }

/-- Apply the pattern to an input, while goals nest less than `depth` deep. -/
def parse? (m : Matcher) (depth : Nat) (input : Slice) : Option Outcome :=
  m.pattern.parse? m.scope.definitions depth input

end Matcher

end Recognizer
