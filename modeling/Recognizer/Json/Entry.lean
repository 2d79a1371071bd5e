import Recognizer.Grammar.Matcher
import Recognizer.Json.Grammar

/-!
# Entry points

Each entry point is a pattern that can be applied to a text on its own: the grammar it comes from is
kept by the pattern alone.
-/

namespace Recognizer.Json

/-- The patterns that a text can be tried against. -/
inductive Entry where
  | number
  | string
  | strictString
  | whitespace
  | value
  | object
  | array
  | document
  deriving DecidableEq

namespace Entry

/-- The pattern of an entry point, in a store to which its grammar has been added. Numbers, strings
and whitespace need none, and no options. -/
def prepare (o : Options) (s : Store) : Entry → Except GrammarError Matcher
  | number => .ok ⟨Json.number, s⟩
  | string => .ok ⟨Json.string, s⟩
  | strictString => .ok ⟨Json.strictString, s⟩
  | whitespace => .ok ⟨Json.whitespace, s⟩
  | value => do
    let (patterns, s) ← build o s
    return ⟨patterns.value, s⟩
  | object => do
    let (patterns, s) ← build o s
    return ⟨patterns.object, s⟩
  | array => do
    let (patterns, s) ← build o s
    return ⟨patterns.array, s⟩
  | document => do
    let (patterns, s) ← build o s
    return ⟨patterns.document, s⟩

/-- The pattern of an entry point in a store of its own. A strict one has to consume the whole
input. -/
def matcher (o : Options) (entry : Entry) (strict : Bool) : Except GrammarError Matcher := do
  let m ← entry.prepare o .empty
  return if strict then m.complete else m

/-- The entry point for values is the first rule of the grammar. -/
theorem prepare_value (o : Options) :
    value.prepare o .empty = .ok ⟨.refer (.strong ⟨0, 0⟩), finished o⟩ := rfl

/-- The one for objects is the second. -/
theorem prepare_object (o : Options) :
    object.prepare o .empty = .ok ⟨.refer (.strong ⟨0, 1⟩), finished o⟩ := rfl

/-- The one for arrays is the third. -/
theorem prepare_array (o : Options) :
    array.prepare o .empty = .ok ⟨.refer (.strong ⟨0, 2⟩), finished o⟩ := rfl

/-- The one for documents is a value with nothing behind it but whitespace. -/
theorem prepare_document (o : Options) :
    document.prepare o .empty = .ok ⟨documentOf o (.refer (.strong ⟨0, 0⟩)), finished o⟩ := rfl

end Entry

end Recognizer.Json
