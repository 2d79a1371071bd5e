import Recognizer.Grammar.Keeper

/-!
# The store of rule tables

Grammars whose rules refer to each other are built in steps: declare rules, take references to
them, define each rule once, and freeze the table when all are defined. The store holds the tables
of all builders and grammars. Tables are only ever added, a table only grows, and a definition once
given stays; a step that fails leaves the store as it was.
-/

namespace Recognizer

/-- A declared rule and its definition, once given. -/
structure Slot where
  name : String
  definition? : Option Keeper

/-- The rules of one builder or grammar, in order of declaration. -/
abbrev Table := List Slot

/-- All tables, in order of creation. -/
structure Store where
  tables : List Table

/-- A table under construction. -/
structure Builder where
  table : Nat
  deriving DecidableEq

/-- A finished table. -/
structure Grammar where
  table : Nat
  deriving DecidableEq

namespace Store

/-- The store without tables. -/
def empty : Store :=
  ⟨[]⟩

/-- The rules of a table. -/
def slots (s : Store) (table : Nat) : Table :=
  s.tables[table]?.getD []

/-- The slot of a rule. -/
def slot? (s : Store) (rule : RuleId) : Option Slot :=
  (s.slots rule.table)[rule.index]?

/-- The names of the rules of a table. -/
def ruleNames (s : Store) (table : Nat) : List String :=
  (s.slots table).map Slot.name

/-- Does a handle belong to a table? -/
def Owns (s : Store) (table : Nat) (rule : Rule) : Prop :=
  rule.id.table = table ∧ rule.id.index < (s.slots table).length

/-- The owner of a handle is found by looking at its place. -/
instance (s : Store) (table : Nat) (rule : Rule) : Decidable (s.Owns table rule) :=
  inferInstanceAs (Decidable (_ ∧ _))

/-- Add an empty table. -/
def newBuilder (s : Store) : Builder × Store :=
  (⟨s.tables.length⟩, ⟨s.tables ++ [[]]⟩)

/-- Add a rule without a definition. -/
def declare (s : Store) (b : Builder) (name : String) : Rule × Store :=
  (⟨⟨b.table, (s.slots b.table).length⟩, name⟩,
    ⟨s.tables.modify b.table (· ++ [⟨name, none⟩])⟩)

/-- The pattern that stands for a rule, defined or not, while its table is alive. -/
def reference (s : Store) (b : Builder) (rule : Rule) : Except GrammarError (Pattern Link) :=
  if s.Owns b.table rule then .ok (.refer (.weak rule.id)) else .error (.unknownRule rule.name)

/-- Give a rule its definition. -/
def define (s : Store) (b : Builder) (rule : Rule) (keeper : Keeper) :
    Except GrammarError Store :=
  if s.Owns b.table rule then
    match (s.slot? rule.id).bind Slot.definition? with
    | some _ => .error (.redefined rule.name)
    | none =>
      .ok ⟨s.tables.modify b.table
        (·.modify rule.id.index ({ · with definition? := some keeper }))⟩
  else .error (.unknownRule rule.name)

/-- Freeze a table all of whose rules are defined. -/
def build (s : Store) (b : Builder) : Except GrammarError Grammar :=
  match (s.slots b.table).find? (·.definition?.isNone) with
  | some slot => .error (.undefined slot.name)
  | none => .ok ⟨b.table⟩

/-- The pattern that stands for a rule of a finished table and keeps the table. -/
def rule (s : Store) (g : Grammar) (rule : Rule) : Except GrammarError (Pattern Link) :=
  if s.Owns g.table rule then .ok (.refer (.strong rule.id)) else .error (.unknownRule rule.name)

end Store

end Recognizer
