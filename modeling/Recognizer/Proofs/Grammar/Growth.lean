import Mathlib.Data.List.Forall2
import Recognizer.Grammar.Store

/-!
# How stores grow

The slots after each operation on a store, in terms of the slots before it. No operation takes a
slot away, renames it or changes a definition once given (`Store.Extends`).
-/

namespace Recognizer

section Lists

variable {α β : Type} {R : α → β → Prop} {l : List α} {l' : List β}

/-- Related lists have related things at each place. -/
lemma rel_getElem? (h : List.Forall₂ R l l') (i : Nat) : Option.Rel R l[i]? l'[i]? := by
  induction h generalizing i with
  | nil => exact .none
  | cons h _ ih =>
    cases i with
    | zero => exact .some h
    | succ i => exact ih i

/-- Related lists stay related when one place is changed in both. -/
lemma forall₂_modify (h : List.Forall₂ R l l') {f : α → α} {g : β → β} {i : Nat}
    (hf : ∀ a b, l'[i]? = some b → R a b → R (f a) (g b)) :
    List.Forall₂ R (l.modify i f) (l'.modify i g) := by
  induction h generalizing i with
  | nil => cases i <;> exact .nil
  | cons h hs ih =>
    cases i with
    | zero => exact .cons (hf _ _ rfl h) hs
    | succ i => exact .cons h (ih hf)

end Lists

namespace Store

variable {s s' s'' : Store} {table : Nat} {place : RuleId} {slot : Slot}

/-- Only tables that exist have slots. -/
lemma lt_length_of_slot? (h : s.slot? place = some slot) : place.table < s.tables.length := by
  apply Nat.lt_of_not_le
  intro le
  rw [slot?, slots, List.getElem?_eq_none le] at h
  cases h

/-- A new builder brings a table without slots, and slots elsewhere stay. -/
lemma slots_newBuilder (s : Store) (table : Nat) : s.newBuilder.2.slots table = s.slots table := by
  rw [slots, slots, newBuilder, List.getElem?_append]
  split
  · rfl
  · next ge =>
    rw [List.getElem?_eq_none (Nat.le_of_not_lt ge)]
    cases table - s.tables.length with
    | zero => rfl
    | succ => rfl

/-- A change to one table changes the slots of this table only. -/
lemma slots_modify (change : Table → Table) (lt : table < s.tables.length) (other : Nat) :
    (mk (s.tables.modify table change)).slots other =
      if other = table then change (s.slots table) else s.slots other := by
  rw [slots, slots, slots]
  by_cases h : other = table
  · rw [h, if_pos rfl, List.getElem?_modify_eq, List.getElem?_eq_getElem lt]
    rfl
  · rw [if_neg h, List.getElem?_modify_ne _ _ (Ne.symm h)]

/-- Beyond the last table there is nothing to change. -/
lemma modify_of_length_le (change : Table → Table) (le : s.tables.length ≤ table) :
    mk (s.tables.modify table change) = s := by
  rw [List.modify_eq_self le]

/-- Slots stay, with their names and with the definitions that they have. -/
def Extends (s s' : Store) : Prop :=
  ∀ place slot, s.slot? place = some slot → ∃ slot', s'.slot? place = some slot' ∧
    slot'.name = slot.name ∧ ∀ keeper, slot.definition? = some keeper →
      slot'.definition? = some keeper

namespace Extends

/-- A store extends itself. -/
lemma refl (s : Store) : s.Extends s :=
  fun _ slot hs => ⟨slot, hs, rfl, fun _ h => h⟩

/-- What extends an extension extends the store. -/
lemma trans (h : s.Extends s') (h' : s'.Extends s'') : s.Extends s'' := by
  intro place slot hs
  obtain ⟨slot', hs', name', definition'⟩ := h place slot hs
  obtain ⟨slot'', hs'', name'', definition''⟩ := h' place slot' hs'
  exact ⟨slot'', hs'', name''.trans name', fun keeper hk =>
    definition'' keeper (definition' keeper hk)⟩

/-- A place that has a slot keeps it. -/
lemma isSome_slot? (h : s.Extends s') (hs : (s.slot? place).isSome) : (s'.slot? place).isSome := by
  obtain ⟨slot, hs⟩ := Option.isSome_iff_exists.1 hs
  obtain ⟨slot', hs', _⟩ := h place slot hs
  exact hs' ▸ rfl

/-- A table is added or changed in a way that keeps what it has. -/
lemma modify {change : Table → Table} (kept : ∀ (i : Nat) (slot : Slot),
      (s.slots table)[i]? = some slot → ∃ slot', (change (s.slots table))[i]? = some slot' ∧
        slot'.name = slot.name ∧ ∀ keeper, slot.definition? = some keeper →
          slot'.definition? = some keeper) :
    s.Extends ⟨s.tables.modify table change⟩ := by
  by_cases lt : table < s.tables.length
  · intro place slot hs
    rw [slot?, slots_modify change lt]
    split
    · next same => exact kept place.index slot (same ▸ hs)
    · exact ⟨slot, hs, rfl, fun _ h => h⟩
  · rw [modify_of_length_le change (Nat.le_of_not_lt lt)]
    exact refl s

end Extends

/-- A new builder takes nothing away. -/
lemma extends_newBuilder (s : Store) : s.Extends s.newBuilder.2 := by
  intro place slot hs
  rw [slot?, slots_newBuilder]
  exact ⟨slot, hs, rfl, fun _ h => h⟩

/-- A declaration adds a slot behind the others. -/
lemma extends_declare (s : Store) (b : Builder) (name : String) :
    s.Extends (s.declare b name).2 := by
  refine Extends.modify fun i slot hs => ⟨slot, ?_, rfl, fun _ h => h⟩
  rw [List.getElem?_append_left (List.getElem?_eq_some_iff.1 hs).1]
  exact hs

/-- A definition is given to a rule of the builder that has none, and changes nothing else. -/
lemma define_eq_ok {b : Builder} {rule : Rule} {keeper : Keeper}
    (h : s.define b rule keeper = .ok s') :
    s.Owns b.table rule ∧ (s.slot? rule.id).bind Slot.definition? = none ∧
      s' = ⟨s.tables.modify b.table
        (·.modify rule.id.index ({ · with definition? := some keeper }))⟩ := by
  rw [define] at h
  split at h
  · next owns =>
    split at h
    · cases h
    · next undefined =>
      cases h
      exact ⟨owns, undefined, rfl⟩
  · cases h

/-- Then the rule has the definition. -/
lemma slot?_of_define {b : Builder} {rule : Rule} {keeper : Keeper}
    (h : s.define b rule keeper = .ok s') :
    ∃ slot, s'.slot? rule.id = some slot ∧ slot.definition? = some keeper := by
  obtain ⟨⟨table, lt⟩, _, rfl⟩ := define_eq_ok h
  have exist : rule.id.index < (s.slots rule.id.table).length := table ▸ lt
  refine ⟨{ (s.slots rule.id.table)[rule.id.index] with definition? := some keeper }, ?_, rfl⟩
  have hs : (s.slot? rule.id) = some (s.slots rule.id.table)[rule.id.index] :=
    List.getElem?_eq_getElem exist
  rw [slot?, ← table, slots_modify _ (lt_length_of_slot? hs), if_pos rfl,
    List.getElem?_modify_eq, List.getElem?_eq_getElem exist]
  rfl

/-- A table is finished when all its rules are defined. -/
lemma build_eq_ok {b : Builder} {g : Grammar} (h : s.build b = .ok g) :
    (∀ slot ∈ s.slots b.table, slot.definition?.isSome) ∧ g = ⟨b.table⟩ := by
  rw [build] at h
  split at h
  · cases h
  · next none =>
    cases h
    exact ⟨fun slot hs => by
      simpa [Option.isSome_iff_ne_none] using List.find?_eq_none.1 none slot hs, rfl⟩

/-- A definition goes into a slot that has none. -/
lemma extends_define {b : Builder} {rule : Rule} {keeper : Keeper}
    (h : s.define b rule keeper = .ok s') : s.Extends s' := by
  obtain ⟨owns, undefined, rfl⟩ := define_eq_ok h
  refine Extends.modify fun i slot hs => ?_
  by_cases hi : rule.id.index = i
  · subst hi
    rw [List.getElem?_modify_eq, hs]
    refine ⟨{ slot with definition? := some keeper }, rfl, rfl, fun k hk => ?_⟩
    -- The slot that is changed had no definition.
    rw [slot?, owns.1, hs] at undefined
    exact nomatch undefined.symm.trans hk
  · rw [List.getElem?_modify_ne _ _ hi]
    exact ⟨slot, hs, rfl, fun _ h => h⟩

/-- The rule at a place is defined by the pattern of a keeper. -/
def Defines (s : Store) (place : RuleId) (keeper : Keeper) : Prop :=
  ∃ slot, s.slot? place = some slot ∧ slot.definition? = some keeper

namespace Defines

variable {keeper keeper' : Keeper}

/-- A new builder brings no definitions. -/
lemma of_newBuilder (h : s.newBuilder.2.Defines place keeper) : s.Defines place keeper := by
  obtain ⟨slot, hs, hk⟩ := h
  rw [slot?, slots_newBuilder] at hs
  exact ⟨slot, hs, hk⟩

/-- A change to one table gives definitions to rules of this table only. -/
lemma of_modify {change : Table → Table}
    (h : (mk (s.tables.modify table change)).Defines place keeper) :
    s.Defines place keeper ∨ place.table = table ∧ ∃ slot,
      (change (s.slots table))[place.index]? = some slot ∧ slot.definition? = some keeper := by
  by_cases lt : table < s.tables.length
  · obtain ⟨slot, hs, hk⟩ := h
    rw [slot?, slots_modify change lt] at hs
    split at hs
    · next same => exact .inr ⟨same, slot, hs, hk⟩
    · exact .inl ⟨slot, hs, hk⟩
  · rw [modify_of_length_le change (Nat.le_of_not_lt lt)] at h
    exact .inl h

/-- Nor does a declaration. -/
lemma of_declare {b : Builder} {name : String}
    (h : (s.declare b name).2.Defines place keeper) : s.Defines place keeper := by
  obtain h | ⟨same, slot, hs, hk⟩ := h.of_modify
  · exact h
  · rw [List.getElem?_append] at hs
    split at hs
    · rw [← same] at hs
      exact ⟨slot, hs, hk⟩
    · cases List.mem_singleton.1 (List.mem_of_getElem? hs)
      cases hk

/-- A definition that is new is the one that was given. -/
lemma of_define {b : Builder} {rule : Rule} (hd : s.define b rule keeper' = .ok s')
    (h : s'.Defines place keeper) :
    s.Defines place keeper ∨ place = rule.id ∧ keeper = keeper' := by
  obtain ⟨owns, _, rfl⟩ := define_eq_ok hd
  obtain h | ⟨same, slot, hs, hk⟩ := h.of_modify
  · exact .inl h
  · by_cases index : rule.id.index = place.index
    · rw [← index, List.getElem?_modify_eq] at hs
      obtain ⟨_, _, rfl⟩ := Option.map_eq_some_iff.1 hs
      refine .inr ⟨?_, (Option.some.inj hk).symm⟩
      rw [RuleId.mk.injEq]
      exact ⟨same.trans owns.1.symm, index.symm⟩
    · rw [List.getElem?_modify_ne _ _ index, ← same] at hs
      exact .inl ⟨slot, hs, hk⟩

end Defines

end Store

end Recognizer
