import Recognizer.Text.Utf8

/-!
# Slices

A slice is a stretch of a text that remembers which text it was cut from and where. Two slices with
the same characters are still different when they come from different texts: a remainder counts as
the end of an input only if it is cut from the same text and ends where the input ends (`before?`).
`Spells` tells which characters a slice has; the theorems say it of the result of each operation.
-/

namespace Recognizer

open Text

/-- A stretch of a text. -/
structure Slice where
  /-- The number of the text that the slice is cut from. -/
  origin : Nat
  /-- Where the slice starts in that text, in bytes. -/
  start : Nat
  /-- Its length in bytes. -/
  size : Nat
  /-- All characters of the text from `start` on; those after the first `size` bytes lie outside. -/
  ahead : List Char
  deriving DecidableEq

namespace Slice

/-- The whole of text number `origin`, whose characters are `cs`. -/
def whole (origin : Nat) (cs : List Char) : Slice :=
  ⟨origin, 0, byteLength cs, cs⟩

/-- The whole of text number `origin`. -/
def ofString (origin : Nat) (text : String) : Slice :=
  whole origin text.toList

/-- The characters of a slice. -/
def chars (s : Slice) : List Char :=
  takeBytes s.size s.ahead

/-- The text of a slice. -/
def toString (s : Slice) : String :=
  String.ofList s.chars

/-- A slice without characters. -/
def isEmpty (s : Slice) : Bool :=
  s.size == 0

/-- The first character. -/
def first? (s : Slice) : Option Char :=
  if s.size = 0 then none else s.ahead.head?

/-- The empty slice at the start of `s`. -/
def nothing (s : Slice) : Slice :=
  { s with size := 0 }

/-- Cut a slice after its first `n` bytes, if they lie inside it and end between two characters. -/
def splitAt? (s : Slice) (n : Nat) : Option (Slice × Slice) :=
  if n ≤ s.size then
    (dropBytes? n s.ahead).map fun rest =>
      ({ s with size := n }, ⟨s.origin, s.start + n, s.size - n, rest⟩)
  else
    none

/-- The part of a slice between two byte offsets. -/
def between? (s : Slice) (first last : Nat) : Option Slice :=
  if first ≤ last then
    (s.splitAt? first).bind fun (_, rest) => (rest.splitAt? (last - first)).map Prod.fst
  else
    none

/-- Does the slice begin with these characters? -/
def startsWith (s : Slice) (cs : List Char) : Bool :=
  byteLength cs ≤ s.size && cs.isPrefixOf s.ahead

/-- `rest` is cut from the same text as `s`, ends where `s` ends and starts no earlier. -/
def EndsWith (s rest : Slice) : Prop :=
  rest.origin = s.origin ∧ rest.start + rest.size = s.start + s.size ∧ rest.size ≤ s.size

/-- Slices are compared by their numbers. -/
instance (s rest : Slice) : Decidable (s.EndsWith rest) :=
  inferInstanceAs (Decidable (_ ∧ _ ∧ _))

/-- The part of `s` that comes before `rest`, if `s` ends with `rest`. -/
def before? (s rest : Slice) : Option Slice :=
  if s.EndsWith rest then some { s with size := s.size - rest.size } else none

/-- How many bytes of `s` lie before `rest`; zero if `rest` is the longer one. -/
def progress (s rest : Slice) : Nat :=
  s.size - rest.size

/-- The characters of the slice are `cs`. -/
def Spells (s : Slice) (cs : List Char) : Prop :=
  ∃ outside, s.ahead = cs ++ outside ∧ byteLength cs = s.size

/-- A whole text has all of its characters. -/
theorem spells_whole (origin : Nat) (cs : List Char) : (whole origin cs).Spells cs :=
  ⟨[], (List.append_nil cs).symm, rfl⟩

/-- A slice of no bytes has no characters. -/
theorem spells_nothing (s : Slice) : s.nothing.Spells [] :=
  ⟨s.ahead, rfl, rfl⟩

namespace Spells

variable {s : Slice} {cs : List Char}

/-- The characters of a slice can be read off it. -/
theorem chars_eq (h : s.Spells cs) : s.chars = cs := by
  obtain ⟨outside, ha, hl⟩ := h
  rw [chars, ha, ← hl, takeBytes_append]

/-- A slice is empty if it has no characters. -/
theorem isEmpty_iff (h : s.Spells cs) : s.isEmpty ↔ cs = [] := by
  obtain ⟨_, _, hl⟩ := h
  rw [isEmpty, beq_iff_eq, ← hl, byteLength_eq_zero]

/-- The first character of a slice is the first of its characters. -/
theorem first?_eq (h : s.Spells cs) : s.first? = cs.head? := by
  obtain ⟨outside, ha, hl⟩ := h
  cases cs with
  | nil => rw [first?, if_pos (show s.size = 0 from hl.symm)]; rfl
  | cons c cs =>
    have := c.utf8Size_pos
    rw [byteLength_cons] at hl
    rw [first?, if_neg (by omega), ha]
    rfl

/-- A slice starts with a word if its characters do. -/
theorem startsWith_iff (h : s.Spells cs) (w : List Char) :
    s.startsWith w ↔ ∃ rest, cs = w ++ rest := by
  obtain ⟨outside, ha, hl⟩ := h
  rw [startsWith, Bool.and_eq_true, decide_eq_true_eq, List.isPrefixOf_iff_prefix, ha, ← hl]
  constructor
  · rintro ⟨le, rest, hr⟩
    exact isPrefixOf_of_byteLength_le hr le
  · rintro ⟨rest, rfl⟩
    exact ⟨by simp, rest ++ outside, by simp⟩

/-- A cut between two parts of a slice gives both. -/
theorem splitAt?_eq {as bs : List Char} (h : s.Spells (as ++ bs)) :
    ∃ taken rest, s.splitAt? (byteLength as) = some (taken, rest) ∧
      taken.Spells as ∧ rest.Spells bs := by
  obtain ⟨outside, ha, hl⟩ := h
  rw [byteLength_append] at hl
  rw [List.append_assoc] at ha
  refine ⟨{ s with size := byteLength as }, ⟨s.origin, s.start + byteLength as,
    s.size - byteLength as, bs ++ outside⟩, ?_, ⟨bs ++ outside, ha, rfl⟩, outside, rfl, ?_⟩
  · rw [splitAt?, if_pos (by omega), ha, dropBytes?_append]
    rfl
  · simp only
    omega

/-- There are no other cuts. -/
theorem of_splitAt? (h : s.Spells cs) {n : Nat} {taken rest : Slice}
    (hs : s.splitAt? n = some (taken, rest)) :
    ∃ as bs, cs = as ++ bs ∧ byteLength as = n ∧ taken.Spells as ∧ rest.Spells bs := by
  obtain ⟨outside, ha, hl⟩ := h
  rw [splitAt?] at hs
  split at hs
  · next le =>
    obtain ⟨behind, hd, hr⟩ := Option.map_eq_some_iff.1 hs
    cases hr
    obtain ⟨as, has, hn⟩ := eq_append_of_dropBytes? hd
    obtain ⟨bs, rfl⟩ := isPrefixOf_of_byteLength_le (has.symm.trans ha) (by omega)
    refine ⟨as, bs, rfl, hn, ⟨behind, has, hn⟩, outside, ?_, ?_⟩
    · rw [has, List.append_assoc] at ha
      exact List.append_cancel_left ha
    · rw [byteLength_append] at hl
      simp only
      omega
  · cases hs

end Spells

end Slice

end Recognizer
