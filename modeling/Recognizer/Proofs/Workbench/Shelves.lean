import Mathlib.Data.List.Forall2
import Mathlib.Data.List.Nodup
import Recognizer.Workbench.Shelf

/-!
# Comparing shelves

Two shelves with related things under the same names (`Shelf.Alike`), and shelves on which no name
stands twice (`Shelf.Tidy`): what is kept on such a shelf is what is found there by name.
-/

namespace Recognizer

namespace Shelf

variable {α β : Type}

/-- What is found after putting something is that or was there before. -/
lemma of_get?_put {s : Shelf α} {name other : String} {a b : α}
    (h : (s.put name a).get? other = some b) :
    other = name ∧ b = a ∨ other ≠ name ∧ s.get? other = some b := by
  rw [get?_put] at h
  split at h
  · next same => exact .inl ⟨same, (Option.some.inj h).symm⟩
  · next ne => exact .inr ⟨ne, h⟩

/-- What is found after taking something out was there before, under another name. -/
lemma of_get?_erase {s : Shelf α} {name other : String} {a : α}
    (h : (s.erase name).get? other = some a) : other ≠ name ∧ s.get? other = some a := by
  rw [get?_erase] at h
  split at h
  · cases h
  · next ne => exact ⟨ne, h⟩

/-- Related things under the same names. -/
def Alike (R : α → β → Prop) (s : Shelf α) (s' : Shelf β) : Prop :=
  List.Forall₂ (fun item item' => item.1 = item'.1 ∧ R item.2 item'.2) s.items s'.items

/-- No name stands twice. -/
def Tidy (s : Shelf α) : Prop :=
  (s.items.map Prod.fst).Nodup

namespace Alike

variable {R R' : α → β → Prop} {s : Shelf α} {s' : Shelf β}

/-- Alike shelves have related things, or nothing, under each name. -/
lemma get? (h : s.Alike R s') (name : String) : Option.Rel R (s.get? name) (s'.get? name) := by
  obtain ⟨items⟩ := s
  obtain ⟨items'⟩ := s'
  rw [Shelf.get?, Shelf.get?]
  change List.Forall₂ _ items items' at h
  induction h with
  | nil => exact .none
  | @cons item item' _ _ hi _ ih =>
    obtain ⟨key, a⟩ := item
    obtain ⟨key', b⟩ := item'
    obtain ⟨rfl, hab⟩ := hi
    rw [List.lookup_cons, List.lookup_cons]
    cases name == key with
    | true => exact .some hab
    | false => exact ih

/-- What one shelf has under a name, the other has as well. -/
lemma exists_get? (h : s.Alike R s') {name : String} {a : α} (ha : s.get? name = some a) :
    ∃ b, s'.get? name = some b ∧ R a b := by
  have rel := h.get? name
  rw [ha] at rel
  generalize s'.get? name = b at rel
  cases rel with
  | some hab => exact ⟨_, rfl, hab⟩

/-- And the other way round. -/
lemma exists_get?_right (h : s.Alike R s') {name : String} {b : β} (hb : s'.get? name = some b) :
    ∃ a, s.get? name = some a ∧ R a b := by
  have rel := h.get? name
  rw [hb] at rel
  generalize s.get? name = a at rel
  cases rel with
  | some hab => exact ⟨_, rfl, hab⟩

/-- They stay alike when the same name is taken out. -/
lemma erase (h : s.Alike R s') (name : String) : (s.erase name).Alike R (s'.erase name) := by
  obtain ⟨items⟩ := s
  obtain ⟨items'⟩ := s'
  rw [Shelf.erase, Shelf.erase]
  change List.Forall₂ _ items items' at h
  induction h with
  | nil => exact .nil
  | @cons item item' _ _ hi _ ih =>
    rw [List.filter_cons, List.filter_cons, hi.1]
    split
    · exact .cons hi ih
    · exact ih

/-- And when related things are put under the same name. -/
lemma put (h : s.Alike R s') (name : String) {a : α} {b : β} (hab : R a b) :
    (s.put name a).Alike R (s'.put name b) :=
  .cons ⟨rfl, hab⟩ (h.erase name)

/-- What is related more closely is alike in the wider sense as well. -/
lemma imp (h : s.Alike R s') (himp : ∀ a b, R a b → R' a b) : s.Alike R' s' :=
  List.Forall₂.imp (fun _ _ hi => ⟨hi.1, himp _ _ hi.2⟩) h

end Alike

/-- No name stands on an empty shelf. -/
lemma tidy_empty : (empty : Shelf α).Tidy :=
  List.nodup_nil

namespace Tidy

variable {s : Shelf α}

/-- Taking out leaves no name twice. -/
lemma erase (h : s.Tidy) (name : String) : (s.erase name).Tidy :=
  h.sublist (List.filter_sublist.map Prod.fst)

/-- Putting replaces what had the name. -/
lemma put (h : s.Tidy) (name : String) (a : α) : (s.put name a).Tidy := by
  refine List.nodup_cons.2 ⟨fun mem => ?_, h.erase name⟩
  obtain ⟨item, hi, rfl⟩ := List.mem_map.1 mem
  have other := (List.mem_filter.1 hi).2
  simp at other

/-- What is kept is found by name. -/
lemma mem_values_iff (h : s.Tidy) {a : α} : a ∈ s.values ↔ ∃ name, s.get? name = some a := by
  obtain ⟨items⟩ := s
  simp only [values, Shelf.get?, List.mem_map, Prod.exists, exists_eq_right]
  refine exists_congr fun name => ?_
  induction items with
  | nil => simp
  | cons item items ih =>
    obtain ⟨key, b⟩ := item
    obtain ⟨absent, h⟩ := List.nodup_cons.1 h
    rw [List.lookup_cons, List.mem_cons]
    by_cases hk : name = key
    · subst hk
      have no : (name, a) ∉ items := fun mem => absent (List.mem_map.2 ⟨_, mem, rfl⟩)
      simp [no, eq_comm]
    · rw [beq_false_of_ne hk, ih h]
      simp [hk]

end Tidy

end Shelf

end Recognizer
