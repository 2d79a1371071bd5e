import Recognizer.CharClass
import Recognizer.Outcome
import Recognizer.Pattern.Series

/-!
# Patterns

A pattern says which leading part of an input is accepted. Patterns are data: characters, literal
texts, sequence, ordered choice, repetition, scans, separated series, wording of rejections, and
references to rules that are defined elsewhere. The type of references is a parameter, so that one
pattern language serves a grammar under construction, a finished one, and a recipe that names its
ingredients. `custom` lets any function from inputs to outcomes take part.
-/

namespace Recognizer

/-- A pattern whose references to rules are values of `ρ`. -/
inductive Pattern (ρ : Type) where
  /-- One character that the test accepts. -/
  | satisfy (accepts : Char → Bool)
  /-- This text. -/
  | literal (text : String)
  /-- Nothing, at the end of the input. -/
  | endOfInput
  /-- The parts, each on what the one before it left. -/
  | concat (parts : List (Pattern ρ))
  /-- The first of the choices that matches. -/
  | firstOf (choices : List (Pattern ρ))
  /-- The body, or nothing where the body rejects. -/
  | optional (body : Pattern ρ)
  /-- Nothing where the condition rejects; elsewhere the condition and then the consequence. -/
  | implies (condition consequence : Pattern ρ)
  /-- The body, as often as it consumes something, `min` to `max` times. -/
  | repeated (body : Pattern ρ) (min : Nat) (max : Option Nat)
  /-- The body again and again up to the first place where `stop` matches, and `stop` itself. -/
  | scan (stop body : Pattern ρ)
  /-- Elements with separators between them. -/
  | series (element separator : Pattern ρ) (config : Series.Config)
  /-- The body, where its rejections at the very start are worded by `message`. -/
  | label (body : Pattern ρ) (message : String)
  /-- The body, where its rejections say that `name` was being recognized. -/
  | context (body : Pattern ρ) (name : String)
  /-- The definition of a rule. -/
  | refer (rule : ρ)
  /-- What the function says. -/
  | custom (answer : Slice → Outcome)

namespace Pattern

variable {ρ : Type}

/-- The character `c`. -/
def char (c : Char) : Pattern ρ :=
  .satisfy (· == c)

/-- One character of a class. -/
def ofClass (k : CharClass) : Pattern ρ :=
  .satisfy k.accepts

/-- One of these characters. -/
def among (cs : List Char) : Pattern ρ :=
  .satisfy cs.contains

/-- One character other than these. -/
def notAmong (cs : List Char) : Pattern ρ :=
  .satisfy fun c => !cs.contains c

/-- One character from `first` to `last`. -/
def range (first last : Char) : Pattern ρ :=
  .satisfy fun c => first ≤ c && c ≤ last

/-- `p`, as often as it consumes something. -/
def many (p : Pattern ρ) : Pattern ρ :=
  .repeated p 0 none

/-- `p`, as often as it consumes something and at least once. -/
def many1 (p : Pattern ρ) : Pattern ρ :=
  .repeated p 1 none

/-- `p`, exactly `n` times. -/
def exactly (p : Pattern ρ) (n : Nat) : Pattern ρ :=
  .repeated p n (some n)

/-- One element or more, with separators between them only. -/
def separated (element separator : Pattern ρ) : Pattern ρ :=
  .series element separator {}

/-- `p` and then `q`. -/
def followedBy (p q : Pattern ρ) : Pattern ρ :=
  .concat [p, q]

/-- `p`, or `q` where `p` rejects. -/
def orElse (p q : Pattern ρ) : Pattern ρ :=
  .firstOf [p, q]

/-- `p`, on condition that it consumes the whole input. -/
def complete (p : Pattern ρ) : Pattern ρ :=
  .concat [p, .endOfInput]

/-- The first `n` bytes. -/
def bytes (n : Nat) : Pattern ρ :=
  .custom fun input => .split input n

/-- Nothing: every input is rejected in the same way. -/
def reject (e : Rejection) : Pattern ρ :=
  .custom fun _ => .rejected e

/-- These two slices, whatever the input is. -/
def stray (consumed remainder : Slice) : Pattern ρ :=
  .custom fun _ => .matched consumed remainder

end Pattern

end Recognizer
