import Mathlib.Tactic.Lemma
import Recognizer.Outcome

/-!
# Tails of a slice

A tail of a slice is what is left of it after a cut. Tails of tails are tails, the bytes before them
add up (`Slice.HasTail.progress_trans`), and rebuilding a match from a tail gives the cut at which
the tail begins (`Slice.HasTail.fromRemainder_eq`).
-/

namespace Recognizer

open Text

namespace Text

/-- Two cuts, one behind the other, are one cut. -/
lemma dropBytes?_add {m n : Nat} {cs rest rest' : List Char} (h : dropBytes? m cs = some rest)
    (h' : dropBytes? n rest = some rest') : dropBytes? (m + n) cs = some rest' := by
  obtain ⟨as, rfl, rfl⟩ := eq_append_of_dropBytes? h
  obtain ⟨bs, rfl, rfl⟩ := eq_append_of_dropBytes? h'
  rw [← byteLength_append, ← List.append_assoc]
  exact dropBytes?_append (as ++ bs) rest'

/-- Two leading parts of a text with the same number of bytes are the same. -/
lemma append_inj_of_byteLength_eq {as bs as' bs' : List Char} (h : as ++ bs = as' ++ bs')
    (e : byteLength as = byteLength as') : as = as' ∧ bs = bs' := by
  obtain ⟨mid, rfl⟩ := isPrefixOf_of_byteLength_le h (Nat.le_of_eq e)
  rw [byteLength_append] at e
  have nil : mid = [] := byteLength_eq_zero.1 (by omega)
  subst nil
  rw [List.append_nil, List.append_cancel_left_eq] at h
  exact ⟨(List.append_nil as).symm, h⟩

end Text

namespace Slice

variable {s taken rest : Slice}

/-- What a cut gives. -/
lemma splitAt?_eq_some_iff {n : Nat} :
    s.splitAt? n = some (taken, rest) ↔ n ≤ s.size ∧ dropBytes? n s.ahead = some rest.ahead ∧
      taken = { s with size := n } ∧
      rest.origin = s.origin ∧ rest.start = s.start + n ∧ rest.size = s.size - n := by
  rw [splitAt?]
  split
  · next le =>
    rw [Option.map_eq_some_iff]
    constructor
    · rintro ⟨ahead, hd, e⟩
      cases e
      exact ⟨le, hd, rfl, rfl, rfl, rfl⟩
    · obtain ⟨origin, start, size, ahead⟩ := rest
      rintro ⟨_, hd, rfl, ho, hs, hz⟩
      cases ho
      cases hs
      cases hz
      exact ⟨ahead, hd, rfl⟩
  · next gt =>
    constructor
    · intro h
      cases h
    · rintro ⟨le, _⟩
      exact absurd le gt

/-- Every slice can be cut at its start. -/
@[simp] lemma splitAt?_zero (s : Slice) : s.splitAt? 0 = some (s.nothing, s) :=
  splitAt?_eq_some_iff.2 ⟨Nat.zero_le _, by rw [dropBytes?], rfl, rfl, rfl, rfl⟩

/-- The bytes before what a cut leaves. -/
lemma progress_of_splitAt? {n : Nat} (h : s.splitAt? n = some (taken, rest)) :
    s.progress rest = n := by
  obtain ⟨le, _, _, _, _, size⟩ := splitAt?_eq_some_iff.1 h
  rw [progress, size]
  omega

/-- No bytes lie before the slice itself. -/
@[simp] lemma progress_self (s : Slice) : s.progress s = 0 :=
  Nat.sub_self _

/-- `rest` is what a cut of `s` leaves. -/
def HasTail (s rest : Slice) : Prop :=
  ∃ n taken, s.splitAt? n = some (taken, rest)

namespace HasTail

/-- The cut that leaves a tail is behind the bytes that lie before it. -/
lemma splitAt?_progress (h : s.HasTail rest) :
    ∃ taken, s.splitAt? (s.progress rest) = some (taken, rest) := by
  obtain ⟨n, taken, h⟩ := h
  rw [progress_of_splitAt? h]
  exact ⟨taken, h⟩

/-- A slice is a tail of itself. -/
lemma refl (s : Slice) : s.HasTail s :=
  ⟨0, s.nothing, splitAt?_zero s⟩

/-- A cut of a tail is a cut of the slice, as far behind as the tail begins. -/
lemma splitAt?_add {taken' rest' : Slice} {n : Nat} (h : s.HasTail rest)
    (h' : rest.splitAt? n = some (taken', rest')) :
    s.splitAt? (s.progress rest + n) = some ({ s with size := s.progress rest + n }, rest') := by
  obtain ⟨m, taken, h⟩ := h
  rw [progress_of_splitAt? h]
  obtain ⟨le, hd, _, origin, start, size⟩ := splitAt?_eq_some_iff.1 h
  obtain ⟨le', hd', _, origin', start', size'⟩ := splitAt?_eq_some_iff.1 h'
  exact splitAt?_eq_some_iff.2 ⟨by omega, dropBytes?_add hd hd', rfl, origin'.trans origin,
    by omega, by omega⟩

/-- A tail of a tail is a tail. -/
lemma trans {rest' : Slice} (h : s.HasTail rest) (h' : rest.HasTail rest') : s.HasTail rest' := by
  obtain ⟨n, taken', h'⟩ := h'
  exact ⟨_, _, h.splitAt?_add h'⟩

/-- The bytes before a tail of a tail add up. -/
lemma progress_trans {rest' : Slice} (h : s.HasTail rest) (h' : rest.HasTail rest') :
    s.progress rest' = s.progress rest + rest.progress rest' := by
  obtain ⟨taken', h'⟩ := h'.splitAt?_progress
  exact progress_of_splitAt? (h.splitAt?_add h')

/-- The same for tails behind known characters. -/
lemma progress_append {rest' : Slice} {as bs : List Char} (h : s.HasTail rest)
    (h' : rest.HasTail rest') (progress : s.progress rest = byteLength as)
    (progress' : rest.progress rest' = byteLength bs) :
    s.progress rest' = byteLength (as ++ bs) := by
  rw [h.progress_trans h', progress, progress', byteLength_append]

/-- The characters of a tail are the last of the slice. -/
lemma spells {cs : List Char} (h : s.HasTail rest) (hs : s.Spells cs) :
    ∃ as bs, cs = as ++ bs ∧ rest.Spells bs := by
  obtain ⟨n, taken, h⟩ := h
  obtain ⟨as, bs, split, _, _, hr⟩ := hs.of_splitAt? h
  exact ⟨as, bs, split, hr⟩

/-- A tail comes from the same text and ends at the same place. -/
lemma endsWith (h : s.HasTail rest) : s.EndsWith rest := by
  obtain ⟨n, taken, h⟩ := h
  obtain ⟨le, _, _, origin, start, size⟩ := splitAt?_eq_some_iff.1 h
  exact ⟨origin, by omega, by omega⟩

/-- What lies before a tail is what the cut takes. -/
lemma before?_eq {n : Nat} (h : s.HasTail rest) (hs : s.splitAt? n = some (taken, rest)) :
    s.before? rest = some taken := by
  obtain ⟨le, _, ht, _, _, size⟩ := splitAt?_eq_some_iff.1 hs
  rw [before?, if_pos h.endsWith, ht]
  simp only [Option.some.injEq, Slice.mk.injEq, true_and, and_true]
  omega

/-- To rebuild a match from a tail is to cut where the tail begins. -/
lemma fromRemainder_eq (h : s.HasTail rest) :
    Outcome.fromRemainder s rest = .split s (s.progress rest) := by
  obtain ⟨taken, hs⟩ := h.splitAt?_progress
  rw [Outcome.fromRemainder, Outcome.split, hs, h.before?_eq hs]

/-- What is rebuilt from a tail is a match, and it is cut off where the tail begins. -/
lemma exists_matched (h : s.HasTail rest) :
    ∃ taken, Outcome.fromRemainder s rest = .matched taken rest ∧
      s.splitAt? taken.size = some (taken, rest) := by
  obtain ⟨taken, hs⟩ := h.splitAt?_progress
  obtain ⟨_, _, ht, _⟩ := splitAt?_eq_some_iff.1 hs
  have size : taken.size = s.progress rest := congrArg Slice.size ht
  refine ⟨taken, ?_, ?_⟩
  · rw [h.fromRemainder_eq, Outcome.split, hs]
  · rw [size, hs]

/-- A tail that begins behind nothing is as long as the slice. -/
lemma size_eq_iff {as : List Char} (h : s.HasTail rest)
    (progress : s.progress rest = byteLength as) : rest.size = s.size ↔ as = [] := by
  have le : rest.size ≤ s.size := h.endsWith.2.2
  rw [Slice.progress] at progress
  rw [← byteLength_eq_zero]
  omega

end HasTail

namespace Spells

/-- A cut between two parts of a slice, as an outcome. -/
lemma split_eq {as bs : List Char} (h : s.Spells (as ++ bs)) :
    ∃ taken rest, s.HasTail rest ∧ s.progress rest = byteLength as ∧ taken.Spells as ∧
      rest.Spells bs ∧ Outcome.split s (byteLength as) = .matched taken rest ∧
      taken.size = byteLength as := by
  obtain ⟨taken, rest, hs, ht, hr⟩ := h.splitAt?_eq
  refine ⟨taken, rest, ⟨_, _, hs⟩, progress_of_splitAt? hs, ht, hr, by rw [Outcome.split, hs], ?_⟩
  obtain ⟨_, _, hl⟩ := ht
  exact hl.symm

end Spells

end Slice

/-- A match that is rebuilt leaves the remainder that it is rebuilt from. -/
lemma Outcome.eq_of_fromRemainder {input rest consumed remainder : Slice}
    (h : fromRemainder input rest = .matched consumed remainder) : remainder = rest := by
  rw [fromRemainder] at h
  split at h
  · cases h
    rfl
  · cases h

end Recognizer
