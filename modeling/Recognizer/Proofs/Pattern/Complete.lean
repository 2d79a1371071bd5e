import Recognizer.Proofs.Pattern.Elements

/-!
# Patterns that have to consume the whole input

A pattern that is complete asks the pattern that it is made of, and then whether anything is left.
So its answer can be told from the answer of that pattern (`Outcome.completed`), if that one splits
what it is given (`Pattern.Honest.yields_complete_iff`).
-/

namespace Recognizer

variable {ρ : Type} {definitions : ρ → Resolution ρ} {input rest : Slice} {o out : Outcome}
  {t : List Char}

/-- A match without a remainder is a match of all there is. -/
lemma Slice.HasTail.fromRemainder_of_isEmpty (h : input.HasTail rest)
    (empty : rest.isEmpty = true) : Outcome.fromRemainder input rest = .matched input rest := by
  rw [isEmpty, beq_iff_eq] at empty
  rw [Outcome.fromRemainder, before?, if_pos h.endsWith, empty, Nat.sub_zero]

/-- What a pattern answers to `input` if it also has to consume all of it. -/
def Outcome.completed (input : Slice) : Outcome → Outcome
  | matched consumed remainder =>
    if remainder.isEmpty then .matched input remainder
    else .refuseAt .trailingInput consumed.size
  | rejected e => .rejected e

/-- At a tail, the end of the input either completes a match or rejects there. -/
lemma Plan.reaches_ofEnd (h : input.HasTail rest) :
    (Plan.ofParts input [.endOfInput] rest).Reaches (Goal.Yields definitions)
      (if rest.isEmpty then .matched input rest
        else .refuseAt .trailingInput (input.progress rest)) := by
  refine ⟨.ofEnd rest, Goal.yields_iff.2 rfl, ?_⟩
  rw [Outcome.ofEnd]
  by_cases empty : rest.isEmpty = true
  · rw [if_pos empty, if_pos empty, ← h.fromRemainder_of_isEmpty empty]
    rfl
  · rw [if_neg empty, if_neg empty]
    exact congrArg (Outcome.refuseAt .trailingInput) (Nat.zero_add (input.progress rest))

/-- The answer of a complete pattern is told by the answer of the pattern. -/
lemma Pattern.Honest.complete {p : Pattern ρ} (hp : p.Honest definitions) (spells : input.Spells t)
    (h : (Goal.apply p input).Yields definitions o) :
    (Goal.apply p.complete input).Yields definitions (o.completed input) := by
  refine Goal.yields_iff.2 ⟨o, h, ?_⟩
  cases o with
  | rejected e =>
    rw [Slice.progress_self]
    rfl
  | matched consumed remainder =>
    have split := hp input t consumed remainder spells h
    rw [Outcome.completed, ← Slice.progress_of_splitAt? split]
    exact Plan.reaches_ofEnd ⟨_, _, split⟩

/-- A complete pattern answers if and only if the pattern does, and its answer is told by that. -/
lemma Pattern.Honest.yields_complete_iff {p : Pattern ρ} (hp : p.Honest definitions)
    (spells : input.Spells t) :
    (Goal.apply p.complete input).Yields definitions out ↔
      ∃ o, (Goal.apply p input).Yields definitions o ∧ out = o.completed input := by
  constructor
  · intro h
    obtain ⟨o, yields, _⟩ := Goal.yields_iff.1 h
    exact ⟨o, yields, h.unique (hp.complete spells yields)⟩
  · rintro ⟨o, yields, rfl⟩
    exact hp.complete spells yields

end Recognizer
