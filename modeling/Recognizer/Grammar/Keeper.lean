import Recognizer.Grammar.Rule
import Recognizer.Pattern.References

/-!
# Keepers

A pattern keeps the tables of the rules that it refers to by strong links. Patterns may be used as
parts of other patterns any number of times, and these again, so that looking for the links place by
place takes time that doubles with every such step. A keeper therefore has the kept tables beside
its pattern, and what a pattern made from keepers keeps is told by the keepers alone.
-/

namespace Recognizer

/-- The tables that a pattern keeps by its strong links. -/
def Pattern.keeps (p : Pattern Link) : List Nat :=
  p.references.filterMap Link.keeps?

/-- After `bind`, a pattern keeps what the patterns keep that were put in. -/
theorem Pattern.keeps_bind {ρ : Type} (f : ρ → Pattern Link) (p : Pattern ρ) :
    (p.bind f).keeps = p.references.flatMap fun rule => (f rule).keeps := by
  rw [keeps, references_bind, List.filterMap_flatMap]
  rfl

/-- A pattern and the tables that it keeps. -/
structure Keeper where
  pattern : Pattern Link
  tables : List Nat
  mem_tables : ∀ table, table ∈ tables ↔ table ∈ pattern.keeps

namespace Keeper

/-- A pattern whose links are looked up one by one. -/
def ofPattern (p : Pattern Link) : Keeper :=
  ⟨p, p.keeps, fun _ => Iff.rfl⟩

/-- The pattern in which each keeper is replaced by its own pattern. -/
def assemble (p : Pattern Keeper) : Keeper where
  pattern := p.bind Keeper.pattern
  tables := (p.references.flatMap Keeper.tables).eraseDups
  mem_tables table := by
    rw [List.mem_eraseDups, Pattern.keeps_bind, List.mem_flatMap, List.mem_flatMap]
    exact exists_congr fun keeper => and_congr_right fun _ => keeper.mem_tables table

end Keeper

end Recognizer
