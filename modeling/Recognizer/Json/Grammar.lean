import Recognizer.Grammar.Held
import Recognizer.Json.Lexical
import Recognizer.Json.Options

/-!
# Values, objects and arrays

```text
value    = string | number | object | array | literal
object   = '{' ( ws '}' | members '}' )
array    = '[' ( ws ']' | elements ']' )
members  = separated (ws string ws ':' ws value ws) (ws ',' ws)
elements = separated (ws value ws) (ws ',' ws)
```

The closing bracket stands in both branches, so that a malformed list is rejected for what is wrong
in it and not for a missing bracket.
-/

namespace Recognizer.Json

/-- The string pattern in force. -/
def stringFor (o : Options) : Pattern Link :=
  if o.strictStrings then strictString else string

/-- A comma with whitespace around it. -/
def comma : Pattern Link :=
  .concat [whitespace, .char ',', whitespace]

/-- A bracketed list, which is empty or has items with commas between them. -/
def bracketed (opening closing : Char) (item : Pattern Link) : Pattern Link :=
  .concat [.char opening,
    .firstOf [.concat [whitespace, .char closing],
      .concat [.separated item comma, .char closing]]]

/-- The definition of objects, given the pattern for values. -/
def objectOf (o : Options) (value : Pattern Link) : Pattern Link :=
  .context
    (bracketed '\x7b' '\x7d' (.concat
      [whitespace, stringFor o, whitespace, .char ':', whitespace, value, whitespace]))
    "object"

/-- The definition of arrays, given the pattern for values. -/
def arrayOf (value : Pattern Link) : Pattern Link :=
  .context (bracketed '[' ']' (.concat [whitespace, value, whitespace])) "array"

/-- The literals in force. -/
def literalsFor (o : Options) : List (Pattern Link) :=
  if o.literals then [.literal "true", .literal "false", .literal "null"] else []

/-- The definition of values, given the patterns for objects and arrays. -/
def valueOf (o : Options) (object array : Pattern Link) : Pattern Link :=
  .label (.firstOf ([stringFor o, number, object, array] ++ literalsFor o))
    "expected a JSON value"

/-- The definition of documents, given the pattern for values. -/
def documentOf (o : Options) (value : Pattern Link) : Pattern Link :=
  if o.surroundingWhitespace then .concat [whitespace, value, whitespace, .endOfInput]
  else value.complete

/-- The patterns of a finished JSON grammar. -/
structure Patterns where
  options : Options
  value : Pattern Link
  object : Pattern Link
  array : Pattern Link
  document : Pattern Link

/-- Add the grammar for some options to a store. -/
def build (o : Options) (s : Store) : Except GrammarError (Patterns × Store) := do
  let (builder, s) := s.newBuilder
  let (value, s) := s.declare builder "value"
  let (object, s) := s.declare builder "object"
  let (array, s) := s.declare builder "array"
  let s ← s.define builder object (.ofPattern (objectOf o (← s.reference builder value)))
  let s ← s.define builder array (.ofPattern (arrayOf (← s.reference builder value)))
  let s ← s.define builder value
    (.ofPattern (valueOf o (← s.reference builder object) (← s.reference builder array)))
  let grammar ← s.build builder
  let value ← s.rule grammar value
  let object ← s.rule grammar object
  let array ← s.rule grammar array
  return (⟨o, value, object, array, documentOf o value⟩, s)

/-- The store that holds the grammar for some options and nothing else. -/
def finished (o : Options) : Store :=
  ⟨[[⟨"value", some (.ofPattern (valueOf o (.refer (.weak ⟨0, 1⟩)) (.refer (.weak ⟨0, 2⟩))))⟩,
    ⟨"object", some (.ofPattern (objectOf o (.refer (.weak ⟨0, 0⟩))))⟩,
    ⟨"array", some (.ofPattern (arrayOf (.refer (.weak ⟨0, 0⟩))))⟩]]⟩

/-- The construction succeeds, and this is what it makes. -/
theorem build_empty (o : Options) :
    build o .empty = .ok (⟨o, .refer (.strong ⟨0, 0⟩), .refer (.strong ⟨0, 1⟩),
      .refer (.strong ⟨0, 2⟩), documentOf o (.refer (.strong ⟨0, 0⟩))⟩, finished o) := rfl

/-- A link into the grammar keeps the grammar and nothing else. -/
theorem heldFrom_finished (o : Options) : (finished o).heldFrom [0] = [0] := by
  obtain ⟨literals, _, strictStrings⟩ := o
  cases literals <;> cases strictStrings <;> rfl

/-- The definitions that the finished grammar gives to links. -/
def Defines (o : Options) (definitions : Link → Resolution Link) : Prop :=
  ∀ link : Link,
    (link.rule = ⟨0, 0⟩ → definitions link =
      .defined (valueOf o (.refer (.weak ⟨0, 1⟩)) (.refer (.weak ⟨0, 2⟩)))) ∧
    (link.rule = ⟨0, 1⟩ → definitions link = .defined (objectOf o (.refer (.weak ⟨0, 0⟩)))) ∧
    (link.rule = ⟨0, 2⟩ → definitions link = .defined (arrayOf (.refer (.weak ⟨0, 0⟩))))

/-- A link that keeps the grammar leads to its rules, and so do the links between them. -/
theorem defines_finished (o : Options) :
    Defines o (Scope.ofRoots (finished o) [0]).definitions := by
  intro link
  have held : link.rule.table = 0 → link.rule.table ∈ (Scope.ofRoots (finished o) [0]).held := by
    intro h
    rw [Scope.ofRoots, heldFrom_finished, h]
    exact List.mem_singleton.2 rfl
  refine ⟨fun h => ?_, fun h => ?_, fun h => ?_⟩ <;>
    rw [Scope.definitions, if_pos (held (by rw [h])), h] <;> rfl

end Recognizer.Json
