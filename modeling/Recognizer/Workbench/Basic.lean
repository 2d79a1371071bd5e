import Recognizer.Text.Quoted
import Recognizer.Workbench.Recipe
import Recognizer.Workbench.Shelf

/-!
# The workbench

Builders, grammars, rule handles and patterns under names, and the steps by which they are made and
let go. A table of rules lives as long as something on the workbench keeps it: its builder, a
grammar made from it, or a pattern with a strong link to it, directly or through other tables. A
step that fails leaves the workbench as it was, but for a builder that could not be built, which is
used up.
-/

namespace Recognizer

/-- All that is kept. -/
structure Workbench extends Supply where
  builders : Shelf Builder
  grammars : Shelf Grammar
  handles : Shelf Rule
  patterns : Shelf Keeper

/-- What can be let go by name. -/
inductive Workbench.Kind where
  | builder
  | grammar
  | pattern
  deriving DecidableEq

/-- One thing to do. -/
inductive Workbench.Step where
  /-- Keep a new builder. -/
  | builder (name : String)
  /-- Declare a rule and keep its handle. -/
  | declare (builder handle ruleName : String)
  /-- Keep the reference to a rule as a pattern. -/
  | reference (builder handle pattern : String)
  /-- Keep the pattern of a recipe. -/
  | keep (pattern : String) (recipe : Recipe)
  /-- Define a rule by a recipe. -/
  | define (builder handle : String) (recipe : Recipe)
  /-- Turn a builder into a grammar. -/
  | build (builder grammar : String)
  /-- Keep a rule of a grammar as a pattern. -/
  | rule (grammar handle pattern : String)
  /-- Keep a grammar under another name as well. -/
  | clone (grammar copy : String)
  /-- Show a builder. -/
  | showBuilder (builder : String)
  /-- Show a grammar. -/
  | showGrammar (grammar : String)
  /-- Let go of what is kept under a name. -/
  | drop (kind : Workbench.Kind) (name : String)
  /-- Apply a pattern to a text. -/
  | parse (pattern text : String)

/-- What a step answers. -/
inductive Workbench.Answer where
  | done
  /-- The name of a rule. -/
  | declared (ruleName : String)
  /-- The names of the rules of a grammar. -/
  | built (ruleNames : List String)
  | shown (text : String)
  /-- Was there anything to let go of? -/
  | dropped (present : Bool)
  /-- The input and the outcome, if there is one within the depth limit. -/
  | parsed (input : Slice) (outcome : Option Outcome)

namespace Workbench

/-- The empty workbench. -/
def empty : Workbench where
  toSupply := .initial
  builders := .empty
  grammars := .empty
  handles := .empty
  patterns := .empty

/-- The tables that are kept directly. -/
def roots (w : Workbench) : List Nat :=
  w.builders.values.map Builder.table ++ w.grammars.values.map Grammar.table ++
    w.patterns.values.flatMap Keeper.tables

/-- The scope of all patterns on the workbench. -/
def scope (w : Workbench) : Scope :=
  .ofRoots w.store w.roots

/-- A nesting depth that no memory has room for. -/
def depthLimit : Nat :=
  Nat.pow 2 62

/-- What is kept under a name. -/
def look {α : Type} (s : Shelf α) (name : String) : Except Fault α :=
  match s.get? name with
  | some a => .ok a
  | none => .error (.nothingKept name)

/-- Take over the mistakes of grammar construction. -/
def checked {α : Type} (r : Except GrammarError α) : Except Fault α :=
  r.mapError .grammar

/-- A name and the names of rules, as they are shown. -/
def describe (what : String) (ruleNames : List String) : String :=
  what ++ " \x7b rules: [" ++ ", ".intercalate (ruleNames.map Text.quote) ++ "] \x7d"

/-- Let go of what is kept under a name. -/
def drop (w : Workbench) (name : String) : Kind → Answer × Workbench
  | .builder =>
    (.dropped (w.builders.get? name).isSome, { w with builders := w.builders.erase name })
  | .grammar =>
    (.dropped (w.grammars.get? name).isSome, { w with grammars := w.grammars.erase name })
  | .pattern =>
    (.dropped (w.patterns.get? name).isSome, { w with patterns := w.patterns.erase name })

/-- The pattern of a recipe, and the workbench on which it has been prepared. -/
def realize (w : Workbench) (recipe : Recipe) : Except Fault (Keeper × Workbench) := do
  let (keeper, supply) ← w.toSupply.realize w.patterns.get? recipe
  return (keeper, { w with toSupply := supply })

/-- Carry out a step that leaves the workbench as it is when it fails. -/
def attempt (w : Workbench) : Step → Except Fault (Answer × Workbench)
  | .builder name =>
    let (b, store) := w.store.newBuilder
    .ok (.done, { w with store, builders := w.builders.put name b })
  | .declare builder handle ruleName => do
    let b ← look w.builders builder
    let (rule, store) := w.store.declare b ruleName
    return (.declared rule.name, { w with store, handles := w.handles.put handle rule })
  | .reference builder handle pattern => do
    let b ← look w.builders builder
    let rule ← look w.handles handle
    let p ← checked (w.store.reference b rule)
    return (.done, { w with patterns := w.patterns.put pattern (.ofPattern p) })
  | .keep pattern recipe => do
    let (keeper, w) ← w.realize recipe
    return (.done, { w with patterns := w.patterns.put pattern keeper })
  | .define builder handle recipe => do
    let b ← look w.builders builder
    let rule ← look w.handles handle
    let (keeper, w) ← w.realize recipe
    let store ← checked (w.store.define b rule keeper)
    return (.done, { w with store })
  | .build builder grammar => do
    let b ← look w.builders builder
    let g ← checked (w.store.build b)
    return (.built (w.store.ruleNames g.table),
      { w with builders := w.builders.erase builder, grammars := w.grammars.put grammar g })
  | .rule grammar handle pattern => do
    let g ← look w.grammars grammar
    let rule ← look w.handles handle
    let p ← checked (w.store.rule g rule)
    return (.done, { w with patterns := w.patterns.put pattern (.ofPattern p) })
  | .clone grammar copy => do
    let g ← look w.grammars grammar
    return (.done, { w with grammars := w.grammars.put copy g })
  | .showBuilder builder => do
    let b ← look w.builders builder
    return (.shown (describe "GrammarBuilder" (w.store.ruleNames b.table)), w)
  | .showGrammar grammar => do
    let g ← look w.grammars grammar
    return (.shown (describe "Grammar" (w.store.ruleNames g.table)), w)
  | .drop kind name => .ok (w.drop name kind)
  | .parse pattern text => do
    let keeper ← look w.patterns pattern
    let input := Slice.ofString 0 text
    return (.parsed input (keeper.pattern.parse? w.scope.definitions depthLimit input), w)

/-- What is left when a step has failed. -/
def afterFault (w : Workbench) : Step → Workbench
  | .build builder _ => { w with builders := w.builders.erase builder }
  | _ => w

/-- Carry out a step. -/
def step (w : Workbench) (s : Step) : Except Fault Answer × Workbench :=
  match w.attempt s with
  | .ok (answer, w') => (.ok answer, w')
  | .error fault => (.error fault, w.afterFault s)

/-- Carry out some steps, one after the other. -/
def run (w : Workbench) : List Step → List (Except Fault Answer) × Workbench
  | [] => ([], w)
  | s :: steps =>
    let (answer, w) := w.step s
    let (answers, w) := w.run steps
    (answer :: answers, w)

end Workbench

end Recognizer
