/-!
# Shelves

Things kept under names. Keeping another thing under a name replaces the one that was there.
-/

namespace Recognizer

/-- Things by name. -/
structure Shelf (α : Type) where
  items : List (String × α)

namespace Shelf

variable {α : Type}

/-- Nothing. -/
def empty : Shelf α :=
  ⟨[]⟩

/-- What is kept under a name. -/
def get? (s : Shelf α) (name : String) : Option α :=
  s.items.lookup name

/-- Let go of what is kept under a name. -/
def erase (s : Shelf α) (name : String) : Shelf α :=
  ⟨s.items.filter (·.1 ≠ name)⟩

/-- Keep a thing under a name. -/
def put (s : Shelf α) (name : String) (a : α) : Shelf α :=
  ⟨(name, a) :: (s.erase name).items⟩

/-- All that is kept. -/
def values (s : Shelf α) : List α :=
  s.items.map Prod.snd

/-- Nothing is found where nothing is kept. -/
@[simp] theorem get?_empty (name : String) : (empty : Shelf α).get? name = none := rfl

/-- What has been taken out is not found, and all else is found as before. -/
theorem lookup_filter_ne (items : List (String × α)) (name other : String) :
    (items.filter (·.1 ≠ name)).lookup other =
      if other = name then none else items.lookup other := by
  induction items with
  | nil => simp
  | cons item items ih =>
    obtain ⟨key, a⟩ := item
    rw [List.filter_cons, List.lookup_cons]
    by_cases hk : key = name
    · rw [if_neg (by simp [hk]), ih]
      by_cases ho : other = name
      · simp [ho]
      · rw [if_neg ho, if_neg ho, beq_false_of_ne (hk ▸ ho)]
    · rw [if_pos (by simp [hk]), List.lookup_cons, ih]
      by_cases ho : other = key
      · simp [ho, hk]
      · simp [beq_false_of_ne ho]

/-- What has been let go is not found, and all else is found as before. -/
theorem get?_erase (s : Shelf α) (name other : String) :
    (s.erase name).get? other = if other = name then none else s.get? other :=
  lookup_filter_ne s.items name other

/-- The last thing kept under a name is found there, and all else is found as before. -/
theorem get?_put (s : Shelf α) (name other : String) (a : α) :
    (s.put name a).get? other = if other = name then some a else s.get? other := by
  rw [get?, put, List.lookup_cons, erase, lookup_filter_ne]
  by_cases h : other = name
  · simp [h]
  · rw [beq_false_of_ne h, if_neg h, if_neg h, get?]

end Shelf

end Recognizer
