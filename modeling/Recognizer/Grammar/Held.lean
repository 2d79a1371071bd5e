import Recognizer.Grammar.Store
import Recognizer.Pattern.Plan

/-!
# Held tables

A table is held if something in use keeps it: directly, or by a chain of strong links through the
definitions of held tables. Weak links do not count. `Store.Holds` says which tables are held and
`Store.heldFrom` computes them (`Store.mem_heldFrom`). A scope fixes the held tables and tells where
each link leads. The program relies on this and has the core library only, so that the steps are
theorems here.
-/

namespace Recognizer

namespace Store

/-- The tables that the definitions of a table keep. -/
def keptBy (s : Store) (table : Nat) : List Nat :=
  (s.slots table).flatMap fun slot => (slot.definition?.map Keeper.tables).getD []

/-- A table keeps what the patterns keep that define its rules. -/
theorem mem_keptBy {s : Store} {table table' : Nat} :
    table' ∈ s.keptBy table ↔ ∃ slot ∈ s.slots table, ∃ keeper,
      slot.definition? = some keeper ∧ table' ∈ keeper.pattern.keeps := by
  rw [keptBy, List.mem_flatMap]
  refine exists_congr fun slot => and_congr_right fun _ => ?_
  cases slot.definition? with
  | none => exact ⟨fun h => (List.not_mem_nil h).elim, fun ⟨_, h, _⟩ => nomatch h⟩
  | some keeper =>
    refine (keeper.mem_tables table').trans ⟨fun h => ⟨keeper, rfl, h⟩, fun ⟨_, h, hk⟩ => ?_⟩
    exact Option.some.inj h ▸ hk

/-- `table` is among the roots or kept by a held table. -/
inductive Holds (s : Store) (roots : List Nat) : Nat → Prop where
  | root {table} : table ∈ roots → Holds s roots table
  | kept {table table'} : Holds s roots table → table' ∈ s.keptBy table → Holds s roots table'

/-- Add the tables that the given ones keep. -/
def holdMore (s : Store) (held : List Nat) : List Nat :=
  (held ++ held.flatMap s.keptBy).eraseDups

/-- No table in the list keeps one that is not. -/
def Closed (s : Store) (held : List Nat) : Prop :=
  ∀ table ∈ held, ∀ table' ∈ s.keptBy table, table' ∈ held

/-- Whether a list is closed is found by going through it. -/
instance (s : Store) (held : List Nat) : Decidable (s.Closed held) :=
  inferInstanceAs (Decidable (∀ table ∈ held, ∀ table' ∈ s.keptBy table, table' ∈ held))

/-- The tables found by chains of at most `rounds` links. The search ends when it finds no more. -/
def heldAfter (s : Store) : Nat → List Nat → List Nat
  | 0, held => held
  | rounds + 1, held => if s.Closed held then held else s.heldAfter rounds (s.holdMore held)

/-- The tables held from `roots`: no chain needs more links than there are tables. -/
def heldFrom (s : Store) (roots : List Nat) : List Nat :=
  s.heldAfter s.tables.length roots.eraseDups

/-- A further round finds what the tables in the list keep. -/
theorem mem_holdMore {s : Store} {held : List Nat} {table : Nat} :
    table ∈ s.holdMore held ↔ table ∈ held ∨ ∃ table' ∈ held, table ∈ s.keptBy table' := by
  rw [holdMore, List.mem_eraseDups, List.mem_append, List.mem_flatMap]

/-- Only a table that exists keeps others. -/
theorem lt_length_of_mem_keptBy {s : Store} {table table' : Nat} (h : table' ∈ s.keptBy table) :
    table < s.tables.length := by
  apply Nat.lt_of_not_le
  intro le
  rw [keptBy, slots, List.getElem?_eq_none le] at h
  cases h

/-- What the search finds is held. -/
theorem holds_of_mem_heldAfter {s : Store} {roots held : List Nat} {rounds table : Nat}
    (hr : ∀ table ∈ held, s.Holds roots table) (h : table ∈ s.heldAfter rounds held) :
    s.Holds roots table := by
  induction rounds generalizing held with
  | zero => exact hr table h
  | succ rounds ih =>
    rw [heldAfter] at h
    split at h
    · exact hr table h
    · refine ih (fun table ht => ?_) h
      rcases mem_holdMore.1 ht with ht | ⟨table', ht, hk⟩
      · exact hr table ht
      · exact .kept (hr table' ht) hk

/-- The search loses nothing that it has found. -/
theorem mem_heldAfter_of_mem {s : Store} {held : List Nat} {table : Nat} (h : table ∈ held)
    (rounds : Nat) : table ∈ s.heldAfter rounds held := by
  induction rounds generalizing held with
  | zero => exact h
  | succ rounds ih =>
    rw [heldAfter]
    split
    · exact h
    · exact ih (mem_holdMore.2 (.inl h))

/-- The search stays with a list that is closed. -/
theorem heldAfter_of_closed {s : Store} {held : List Nat} (h : s.Closed held) (rounds : Nat) :
    s.heldAfter rounds held = held := by
  cases rounds with
  | zero => rfl
  | succ rounds => rw [heldAfter, if_pos h]

/-- A list that is not closed leaves out a table that one of its tables keeps. -/
theorem exists_of_not_closed {s : Store} {held : List Nat} (h : ¬ s.Closed held) :
    ∃ table ∈ held, ∃ table' ∈ s.keptBy table, table' ∉ held :=
  Classical.byContradiction fun no => h fun table ht table' hk =>
    Classical.byContradiction fun hn => no ⟨table, ht, table', hk, hn⟩

/-- How many of the tables in the list exist. -/
def countExisting (s : Store) (held : List Nat) : Nat :=
  (List.range s.tables.length).countP held.contains

/-- No more tables exist than there are in the store. -/
theorem countExisting_le (s : Store) (held : List Nat) :
    s.countExisting held ≤ s.tables.length :=
  Nat.le_trans List.countP_le_length (Nat.le_of_eq List.length_range)

/-- A list that is not closed has a table that exists, since only these keep others. -/
theorem countExisting_pos {s : Store} {held : List Nat} (h : ¬ s.Closed held) :
    0 < s.countExisting held := by
  obtain ⟨table, ht, table', hk, _⟩ := exists_of_not_closed h
  exact List.countP_pos_iff.2 ⟨table, List.mem_range.2 (lt_length_of_mem_keptBy hk),
    List.contains_iff_mem.2 ht⟩

/-- A round after which there is more to find has found another table that exists. -/
theorem countExisting_lt {s : Store} {held : List Nat} (h : ¬ s.Closed (s.holdMore held)) :
    s.countExisting held < s.countExisting (s.holdMore held) := by
  obtain ⟨table, ht, table', hk, hn⟩ := exists_of_not_closed h
  have before : table ∉ held := fun hb => hn (mem_holdMore.2 (.inr ⟨table, hb, hk⟩))
  -- All that was held before is among the tables held now, and `table` is another one of them.
  have known : (List.range s.tables.length).countP held.contains =
      ((List.range s.tables.length).filter (s.holdMore held).contains).countP held.contains := by
    rw [List.countP_filter]
    refine List.countP_congr fun i _ => ?_
    rw [Bool.and_eq_true, List.contains_iff_mem, List.contains_iff_mem]
    exact ⟨fun hi => ⟨hi, mem_holdMore.2 (.inl hi)⟩, And.left⟩
  rw [countExisting, countExisting, known, List.countP_eq_length_filter,
    List.countP_eq_length_filter]
  refine List.length_filter_lt_length_iff_exists.2 ⟨table, List.mem_filter.2 ⟨?_, ?_⟩, fun hb => ?_⟩
  · exact List.mem_range.2 (lt_length_of_mem_keptBy hk)
  · exact List.contains_iff_mem.2 ht
  · exact before (List.contains_iff_mem.1 hb)

/-- As long as the search goes on, each round finds another table that exists. -/
theorem add_rounds_le_countExisting {s : Store} {held : List Nat} {rounds : Nat}
    (h : ¬ s.Closed (s.heldAfter rounds held)) :
    s.countExisting held + rounds ≤ s.countExisting (s.heldAfter rounds held) := by
  induction rounds generalizing held with
  | zero => exact Nat.le_refl _
  | succ rounds ih =>
    have hc : ¬ s.Closed held := fun hc => h ((heldAfter_of_closed hc _).symm ▸ hc)
    rw [heldAfter, if_neg hc] at h ⊢
    have lt := countExisting_lt fun hm => h ((heldAfter_of_closed hm rounds).symm ▸ hm)
    have le := ih h
    omega

/-- After as many rounds as there are tables, nothing is left to find. -/
theorem closed_heldFrom (s : Store) (roots : List Nat) : s.Closed (s.heldFrom roots) := by
  apply Classical.byContradiction
  intro h
  rw [heldFrom] at h
  have start : ¬ s.Closed roots.eraseDups := fun hc =>
    h ((heldAfter_of_closed hc s.tables.length).symm ▸ hc)
  have pos := countExisting_pos start
  have le := add_rounds_le_countExisting h
  have bound := s.countExisting_le (s.heldAfter s.tables.length roots.eraseDups)
  omega

/-- The tables computed are the held ones. -/
theorem mem_heldFrom {s : Store} {roots : List Nat} {table : Nat} :
    table ∈ s.heldFrom roots ↔ s.Holds roots table := by
  refine ⟨holds_of_mem_heldAfter fun _ h => .root (List.mem_eraseDups.1 h), fun h => ?_⟩
  induction h with
  | root h => exact mem_heldAfter_of_mem (List.mem_eraseDups.2 h) _
  | kept _ hk ih => exact closed_heldFrom s roots _ ih _ hk

end Store

/-- The store as a pattern in use sees it. -/
structure Scope where
  store : Store
  /-- The held tables. -/
  held : List Nat

namespace Scope

/-- The scope in which the tables in `roots` are in use. -/
def ofRoots (store : Store) (roots : List Nat) : Scope :=
  ⟨store, store.heldFrom roots⟩

/-- Where a link leads. -/
def definitions (scope : Scope) (link : Link) : Resolution Link :=
  if link.rule.table ∈ scope.held then
    match scope.store.slot? link.rule with
    | some ⟨_, some keeper⟩ => .defined keeper.pattern
    | some ⟨name, none⟩ => .undefined name
    | none => .dropped
  else .dropped

end Scope

end Recognizer
