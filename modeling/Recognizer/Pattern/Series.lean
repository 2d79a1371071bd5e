/-!
# Counts and separators of a series

How many elements a series may have and what becomes of a separator behind the last one.
-/

namespace Recognizer.Series

/-- What to do with a separator that no element follows. -/
inductive Trailing where
  /-- It rejects the whole series. -/
  | forbidden
  /-- It belongs to the series and ends it. -/
  | allowed
  deriving DecidableEq

/-- The bounds of a series: from one element up, and none behind a last separator, unless said
otherwise. -/
structure Config where
  /-- The fewest elements accepted. With zero, a series without a first element matches empty. -/
  min : Nat := 1
  /-- The most elements consumed. -/
  max : Option Nat := none
  trailing : Trailing := .forbidden
  deriving DecidableEq

namespace Config

/-- Accept no fewer than `n` elements. -/
def withMin (config : Config) (n : Nat) : Config :=
  { config with min := n }

/-- Stop after `n` elements. -/
def withMax (config : Config) (n : Nat) : Config :=
  { config with max := some n }

/-- Treat a separator that no element follows as `trailing` says. -/
def withTrailing (config : Config) (trailing : Trailing) : Config :=
  { config with trailing }

end Config

end Recognizer.Series
