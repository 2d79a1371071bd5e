import Recognizer.Proofs.Pattern.Foreign
import Recognizer.Proofs.Pattern.Rules

/-!
# Cuts by length and by remainder

A match can be told by the number of bytes that it takes (`Outcome.split`) and by what it leaves
(`Outcome.fromRemainder`). Both ways give the same matches: a number of bytes can be cut off if a
leading part of the text has as many, and a remainder is accepted if such a cut leaves it. Of slices
of the same texts, the others are of another text, end elsewhere, or start too early
(`Slice.CutFrom.hasTail_iff`).
-/

namespace Recognizer

open Text

variable {ρ : Type} {definitions : ρ → Resolution ρ} {texts : Nat → List Char}
variable {input taken rest : Slice} {t as bs : List Char} {n : Nat}

namespace Slice

/-- Of slices of the same texts, a cut of the one leaves the other if that ends it. -/
lemma CutFrom.hasTail_iff (hi : input.CutFrom texts) (hr : rest.CutFrom texts) :
    input.HasTail rest ↔ input.EndsWith rest := by
  constructor
  · exact HasTail.endsWith
  · intro ends
    exact ⟨_, _, hi.splitAt?_eq hr (if_pos ends)⟩

/-- To cut at the end is to take all. -/
lemma Spells.splitAt?_size (h : input.Spells t) :
    ∃ nothing, input.splitAt? input.size = some (input, nothing) := by
  obtain ⟨_, _, size⟩ := id h
  rw [← List.append_nil t] at h
  obtain ⟨taken, nothing, cut, _⟩ := h.splitAt?_eq
  rw [size] at cut
  obtain ⟨_, _, all, _⟩ := splitAt?_eq_some_iff.1 cut
  exact ⟨nothing, by rw [cut, all]⟩

/-- What lies between two cuts is what the second one takes behind the first. -/
lemma between?_eq {first last : Nat} {before behind middle : Slice} (le : first ≤ last)
    (h : input.splitAt? first = some (before, rest))
    (h' : rest.splitAt? (last - first) = some (middle, behind)) :
    input.between? first last = some middle := by
  rw [between?, if_pos le, h]
  exact congrArg (Option.map Prod.fst) h'

/-- What a cut takes lies before it. -/
lemma between?_zero (h : input.splitAt? n = some (taken, rest)) :
    input.between? 0 n = some taken :=
  between?_eq (Nat.zero_le n) (splitAt?_zero input) h

/-- What a cut leaves lies behind it. -/
lemma Spells.between?_size (hs : input.Spells t) (h : input.splitAt? n = some (taken, rest)) :
    input.between? n input.size = some rest := by
  obtain ⟨le, _, _, _, _, size⟩ := splitAt?_eq_some_iff.1 h
  obtain ⟨_, _, _, _, _, spells⟩ := hs.of_splitAt? h
  obtain ⟨nothing, all⟩ := spells.splitAt?_size
  rw [size] at all
  exact between?_eq le h all

/-- As many bytes can be cut off as a leading part of the text has. -/
lemma Spells.isMatched_split_iff (h : input.Spells t) :
    (Outcome.split input n).isMatched ↔ ∃ as, as <+: t ∧ byteLength as = n := by
  constructor
  · intro matched
    rw [Outcome.split] at matched
    split at matched
    · next cut =>
      obtain ⟨as, bs, split, length, _⟩ := h.of_splitAt? cut
      exact ⟨as, ⟨bs, split.symm⟩, length⟩
    · cases matched
  · rintro ⟨as, ⟨bs, rfl⟩, rfl⟩
    obtain ⟨taken, rest, _, _, _, _, split, _⟩ := h.split_eq
    rw [split]
    rfl

/-- The cut behind a leading part, by its length and by what is left. -/
lemma Spells.split_eq_fromRemainder (h : input.Spells (as ++ bs)) : ∃ taken rest,
    input.between? 0 (byteLength as) = some taken ∧
    input.between? (byteLength as) input.size = some rest ∧ taken.Spells as ∧ rest.Spells bs ∧
    Outcome.split input (byteLength as) = .matched taken rest ∧
    Outcome.fromRemainder input rest = .matched taken rest := by
  obtain ⟨taken, rest, cut, ht, hr⟩ := h.splitAt?_eq
  have tail : input.HasTail rest := ⟨_, _, cut⟩
  have split : Outcome.split input (byteLength as) = .matched taken rest := by
    rw [Outcome.split, cut]
  refine ⟨taken, rest, between?_zero cut, h.between?_size cut, ht, hr, split, ?_⟩
  rw [tail.fromRemainder_eq, progress_of_splitAt? cut, split]

/-- A remainder that does not end the input is foreign. -/
lemma fromRemainder_of_not_endsWith (h : ¬ input.EndsWith rest) :
    Outcome.fromRemainder input rest = .refuse .foreignRemainder := by
  rw [Outcome.fromRemainder, before?, if_neg h]

end Slice

/-- A pattern that takes `as` of a text cuts off that many bytes, and can do so. -/
lemma Pattern.Answers.split_eq {p : Pattern ρ} (h : p.Answers definitions t (.taken as bs))
    (hs : input.Spells t) : ∃ taken rest,
      Outcome.split input (byteLength as) = .matched taken rest ∧
      (Goal.apply p input).Yields definitions (.matched taken rest) ∧
      t = as ++ bs ∧ taken.Spells as ∧ rest.Spells bs := by
  have splits : t = as ++ bs := h.splits
  have yields := h.yields input hs
  rw [Verdict.outcome_self_taken] at yields
  rw [splits] at hs
  obtain ⟨taken, rest, _, _, ht, hr, split, _⟩ := hs.split_eq
  rw [split] at yields
  exact ⟨taken, rest, split, yields, splits, ht, hr⟩

/-- A cut by length and a cut by remainder are the same. As many bytes can be cut off as a leading
part of the characters has; this part is then taken and the others are left, and the same match is
rebuilt from what is left. Every remainder that no cut leaves is refused: those of another text,
whatever their characters are, those that end elsewhere, and those that start before the input. So
neither a character nor a text that has been found at the start fails to be cut off. -/
theorem Slice.Spells.split_or_remainder (h : input.Spells t) :
    (∀ n, (Outcome.split input n).isMatched ↔ ∃ as, as <+: t ∧ byteLength as = n) ∧
    (∀ as bs, t = as ++ bs → ∃ taken rest,
      input.between? 0 (byteLength as) = some taken ∧
      input.between? (byteLength as) input.size = some rest ∧ taken.Spells as ∧ rest.Spells bs ∧
      Outcome.split input (byteLength as) = .matched taken rest ∧
      Outcome.fromRemainder input rest = .matched taken rest) ∧
    (∀ texts, input.CutFrom texts → ∀ rest : Slice, rest.CutFrom texts → ¬ input.HasTail rest →
      Outcome.fromRemainder input rest = .refuse .foreignRemainder) ∧
    (∀ rest : Slice, rest.origin ≠ input.origin ∨
      rest.start + rest.size ≠ input.start + input.size ∨ rest.start < input.start →
      Outcome.fromRemainder input rest = .refuse .foreignRemainder) ∧
    (∀ (ρ : Type) (definitions : ρ → Resolution ρ) (accepts : Char → Bool) (c : Char),
      input.first? = some c → accepts c = true → ∃ taken rest bs,
        Outcome.split input c.utf8Size = .matched taken rest ∧
        (Goal.apply (.satisfy accepts) input).Yields definitions (.matched taken rest) ∧
        t = c :: bs ∧ taken.Spells [c] ∧ rest.Spells bs) ∧
    ∀ (ρ : Type) (definitions : ρ → Resolution ρ) (text : String),
      input.startsWith text.toList = true → ∃ taken rest bs,
        Outcome.split input (byteLength text.toList) = .matched taken rest ∧
        (Goal.apply (.literal text) input).Yields definitions (.matched taken rest) ∧
        t = text.toList ++ bs ∧ taken.Spells text.toList ∧ rest.Spells bs := by
  refine ⟨fun n => h.isMatched_split_iff, ?_, ?_, ?_, ?_, ?_⟩
  · rintro as bs rfl
    exact h.split_eq_fromRemainder
  · intro texts hi rest hr foreign
    rw [hi.hasTail_iff hr] at foreign
    exact fromRemainder_of_not_endsWith foreign
  · intro rest foreign
    apply fromRemainder_of_not_endsWith
    rintro ⟨origin, stop, size⟩
    -- Any of the three keeps the input from ending with the remainder.
    obtain other | elsewhere | early := foreign
    · exact other origin
    · exact elsewhere stop
    · omega
  · intro ρ definitions accepts c first accepted
    rw [h.first?_eq] at first
    obtain ⟨bs, rfl⟩ := List.head?_eq_some_iff.1 first
    have answers : (Pattern.satisfy accepts).Answers definitions (c :: bs) (.taken [c] bs) :=
      Pattern.answers_satisfy accepted bs
    obtain ⟨taken, rest, cut⟩ := answers.split_eq h
    rw [byteLength_cons, byteLength_nil, Nat.add_zero] at cut
    exact ⟨taken, rest, bs, cut⟩
  · intro ρ definitions text starts
    obtain ⟨bs, rfl⟩ := (h.startsWith_iff _).1 starts
    have answers : (Pattern.literal text).Answers definitions (text.toList ++ bs)
        (.taken text.toList bs) := Pattern.answers_literal text bs
    obtain ⟨taken, rest, cut⟩ := answers.split_eq h
    exact ⟨taken, rest, bs, cut⟩

/-- Characters of two and of four bytes, in the middle of a text. The first one is rebuilt from the
second, but not from the same character in another text or from where the text starts. -/
theorem Slice.Spells.split_or_remainder_accents :
    (⟨0, 1, 6, ['é', '😀', 'y']⟩ : Slice).Spells ['é', '😀'] ∧
    (¬ ∃ as, as <+: ['é', '😀'] ∧ byteLength as = 1) ∧
    Outcome.fromRemainder ⟨0, 1, 6, ['é', '😀', 'y']⟩ ⟨0, 3, 4, ['😀', 'y']⟩ =
      .matched ⟨0, 1, 2, ['é', '😀', 'y']⟩ ⟨0, 3, 4, ['😀', 'y']⟩ ∧
    Outcome.fromRemainder ⟨0, 1, 6, ['é', '😀', 'y']⟩ ⟨1, 3, 4, ['😀', 'y']⟩ =
      .refuse .foreignRemainder ∧
    Outcome.fromRemainder ⟨0, 1, 6, ['é', '😀', 'y']⟩ ⟨0, 0, 7, ['x', 'é', '😀', 'y']⟩ =
      .refuse .foreignRemainder := by
  have spells : (⟨0, 1, 6, ['é', '😀', 'y']⟩ : Slice).Spells ['é', '😀'] := ⟨['y'], rfl, rfl⟩
  obtain ⟨lengths, parts, _, others, _⟩ := spells.split_or_remainder
  refine ⟨spells, fun part => ?_, ?_, others _ (.inl (by decide)),
    others _ (.inr (.inr (by decide)))⟩
  · cases (lengths 1).2 part
  · obtain ⟨taken, rest, before, behind, _, _, _, rebuilt⟩ := parts ['é'] ['😀'] rfl
    cases before
    cases behind
    exact rebuilt

end Recognizer
