import Recognizer.Json.Entry

/-!
# Recipes

A recipe is a pattern whose references name what is to be put in their place: a pattern kept under
a name, the pattern of a JSON entry point with a grammar of its own, or an answer cut from texts
that belong to no input.
-/

namespace Recognizer

/-- What a recipe refers to. -/
inductive Ingredient where
  /-- The pattern kept under a name. -/
  | kept (name : String)
  /-- The pattern of an entry point, from a grammar made for it. -/
  | json (entry : Json.Entry) (options : Json.Options)
  /-- A pattern that answers every input with these two texts. -/
  | stray (consumed remainder : String)

/-- A pattern in terms of ingredients. -/
abbrev Recipe := Pattern Ingredient

/-- What is used up in preparing patterns: the store grows, and so does the number of texts. -/
structure Supply where
  store : Store
  /-- Texts have the numbers below this one. Number zero is the input. -/
  texts : Nat

/-- Why a recipe or a step could not be carried out. -/
inductive Fault where
  /-- Nothing is kept under the name. -/
  | nothingKept (name : String)
  | grammar (error : GrammarError)
  deriving DecidableEq

namespace Supply

/-- The supply before any preparation. -/
def initial : Supply :=
  ⟨.empty, 1⟩

/-- Prepare an ingredient. The two texts of a stray answer get numbers that no other text has. -/
def prepare (kept : String → Option Keeper) :
    Ingredient → StateT Supply (Except Fault) Keeper
  | .kept name => fun supply =>
    match kept name with
    | some keeper => .ok (keeper, supply)
    | none => .error (.nothingKept name)
  | .json entry options => fun supply =>
    match entry.prepare options supply.store with
    | .ok m => .ok (.ofPattern m.pattern, { supply with store := m.store })
    | .error e => .error (.grammar e)
  | .stray consumed remainder => fun supply =>
    let p := .stray (.ofString supply.texts consumed) (.ofString (supply.texts + 1) remainder)
    .ok (.ofPattern p, { supply with texts := supply.texts + 2 })

/-- Prepare the pattern of a recipe. -/
def realize (kept : String → Option Keeper) (recipe : Recipe) (supply : Supply) :
    Except Fault (Keeper × Supply) := do
  let (p, supply) ← (recipe.mapM (prepare kept)).run supply
  return (.assemble p, supply)

end Supply

end Recognizer
