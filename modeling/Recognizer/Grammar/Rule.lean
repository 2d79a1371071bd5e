import Recognizer.Pattern.Basic

/-!
# Rules and links to them

A rule is a place in a table of rules. A pattern refers to a rule by a link, which is weak or
strong: a strong link keeps the table of its rule alive, a weak one does not.
-/

namespace Recognizer

/-- The place of a rule. -/
structure RuleId where
  table : Nat
  index : Nat
  deriving DecidableEq

/-- The handle of a declared rule. -/
structure Rule where
  id : RuleId
  /-- The name given at declaration. -/
  name : String
  deriving DecidableEq

/-- A reference from a pattern to a rule. -/
inductive Link where
  /-- Good for as long as something else keeps the table. -/
  | weak (rule : RuleId)
  /-- Keeps the table itself. -/
  | strong (rule : RuleId)
  deriving DecidableEq

/-- The rule that a link leads to. -/
def Link.rule : Link → RuleId
  | weak rule => rule
  | strong rule => rule

/-- The table that a link keeps. -/
def Link.keeps? : Link → Option Nat
  | weak _ => none
  | strong rule => some rule.table

/-- A mistake in the construction of a grammar. -/
inductive GrammarError where
  /-- A rule was given a second definition. -/
  | redefined (name : String)
  /-- A declared rule has no definition. -/
  | undefined (name : String)
  /-- A handle belongs to another table. -/
  | unknownRule (name : String)
  deriving DecidableEq

/-- The wording of a mistake. -/
def GrammarError.message : GrammarError → String
  | redefined name => "rule `" ++ name ++ "` is defined more than once"
  | undefined name => "rule `" ++ name ++ "` is declared but never defined"
  | unknownRule name => "rule `" ++ name ++ "` does not belong to this grammar"

end Recognizer
