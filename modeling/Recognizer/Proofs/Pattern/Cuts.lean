import Recognizer.Proofs.Pattern.Origins

/-!
# Outcomes that cut their input

Every outcome of a regular pattern cuts the input: a match is the two parts of the input at a cut,
and a rejection lies at a place where the input can be cut and is never about a foreign remainder
(`Pattern.RegularOver.cuts`).
-/

namespace Recognizer

variable {ρ : Type} {definitions : ρ → Resolution ρ} {good : ρ → Prop} {input rest : Slice}
  {p : Pattern ρ} {cause : Cause}

/-- A match is a cut of the input, and a rejection lies at one and is not about a foreign
remainder. -/
def Outcome.Cuts (input : Slice) : Outcome → Prop
  | .matched consumed remainder => input.splitAt? consumed.size = some (consumed, remainder)
  | .rejected e => e.cause ≠ .foreignRemainder ∧ (input.splitAt? e.offset).isSome

/-- What a match leaves is a tail of the input. -/
lemma Outcome.Cuts.hasTail {consumed remainder : Slice}
    (h : (matched consumed remainder).Cuts input) : input.HasTail remainder :=
  ⟨_, _, h⟩

/-- No pattern refuses an input for a foreign remainder. -/
lemma Pattern.Refuses.ne_foreignRemainder (h : p.Refuses definitions input cause) :
    cause ≠ .foreignRemainder := by
  rintro rfl
  cases h with
  | satisfy mem => simp at mem
  | literal mem => simp at mem

/-- None gives up for one. -/
lemma Pattern.GivesUp.ne_foreignRemainder (h : p.GivesUp definitions rest cause) :
    cause ≠ .foreignRemainder := by
  rintro rfl
  cases h

/-- A rejection that has an origin lies at a cut. -/
lemma Pattern.Origin.cuts {e : Rejection} (h : p.Origin definitions input e) :
    (Outcome.rejected e).Cuts input := by
  induction h with
  | refuses refuses => exact ⟨refuses.ne_foreignRemainder, by rw [Slice.splitAt?_zero]; rfl⟩
  | givesUp hr givesUp =>
    obtain ⟨taken, cut⟩ := hr.splitAt?_progress
    exact ⟨givesUp.ne_foreignRemainder, by rw [cut]; rfl⟩
  | handedOn _ hr _ ih =>
    obtain ⟨cause, cut⟩ := ih
    obtain ⟨⟨taken, rest⟩, cut⟩ := Option.isSome_iff_exists.1 cut
    refine ⟨cause, ?_⟩
    rw [Rejection.shifted, Nat.add_comm, hr.splitAt?_add cut]
    rfl
  | choice _ _ _ ih => exact ih
  | label message _ ih =>
    rw [Rejection.labelled]
    split
    · exact ⟨nofun, ih.2⟩
    · exact ih
  | context name _ ih => exact ih
  | rule _ _ ih => exact ih

/-- What a regular pattern answers cuts its input, if all definitions are regular. -/
theorem Pattern.RegularOver.cuts (hd : ∀ rule p, definitions rule = .defined p → p.Regular)
    (hp : p.RegularOver good) {o : Outcome} (h : (Goal.apply p input).Yields definitions o) :
    o.Cuts input := by
  have explains := hp.regular.explains (fun rule p _ => hd rule p) h
  cases o with
  | matched consumed remainder => exact explains
  | rejected e => exact explains.cuts

end Recognizer
