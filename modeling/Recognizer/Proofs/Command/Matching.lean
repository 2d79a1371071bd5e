import Recognizer.Command.Match
import Recognizer.Proofs.Json.Documents

/-!
# Matches of whole texts

There are three ways to call for a match of the whole text: a complete pattern, a strict match on
the command line, and a document. Each of them answers as the pattern, the match or the value would
that does not call for it, except where that one leaves something (`complete_strict_document`).
-/

namespace Recognizer.Command

open Json

/-- A strict match answers as the match that is not strict, completed. -/
lemma exists_completed_match (text : String) (options : MatchOptions) : ∃ out,
    matchText text { options with strict := false } = .ok out ∧
      matchText text { options with strict := true } = .ok (out.completed (.ofString 0 text)) := by
  have spells : (Slice.ofString 0 text).Spells text.toList := Slice.spells_whole 0 text.toList
  obtain ⟨out, loose, strict⟩ :=
    Entry.exists_completed { literals := options.literals } options.rule.entry spells
  refine ⟨out, ?_, ?_⟩
  · rw [matchText, loose]
    rfl
  · rw [matchText, strict]
    rfl

/-- What is asked of a whole input is told by what is answered without that. A complete pattern
gives the answer of the pattern, completed, if this splits what it is given; a strict match is the
match, completed, for every rule and with or without literals; and so is a document the value where
no whitespace is allowed around it. Where it is allowed, the longest whitespace is skipped before
and behind the value, and nothing may be left behind that. -/
theorem complete_strict_document :
    (∀ (ρ : Type) (definitions : ρ → Resolution ρ) (p : Pattern ρ), p.Honest definitions →
      ∀ (input : Slice) (t : List Char), input.Spells t → ∀ out,
        (Goal.apply p.complete input).Yields definitions out ↔
          ∃ o, (Goal.apply p input).Yields definitions o ∧ out = o.completed input) ∧
    (∀ (text : String) (options : MatchOptions), ∃ out,
      matchText text { options with strict := false } = .ok out ∧
      matchText text { options with strict := true } = .ok (out.completed (.ofString 0 text))) ∧
    (∀ (o : Options) (input : Slice) (t : List Char), input.Spells t →
      o.surroundingWhitespace = false → ∃ out, recognize o .value false input = .ok out ∧
        recognize o .document false input = .ok (out.completed input)) ∧
    (∀ (o : Options) (input : Slice) (t : List Char), input.Spells t →
      o.surroundingWhitespace = true → ∃ out,
        recognize o .value false input.behindBlank = .ok out ∧
        recognize o .document false input = .ok (out.padded input input.behindBlank)) ∧
    ∀ (s : Slice) (t : List Char), s.Spells t →
      s.Cut s.behindBlank (t.takeWhile CharClass.whitespace.accepts)
        (t.dropWhile CharClass.whitespace.accepts) :=
  ⟨fun _ _ _ honest _ _ spells _ => honest.yields_complete_iff spells, exists_completed_match,
    fun _ _ _ spells plain => exists_completed_document plain spells,
    fun _ _ _ spells padded => exists_padded_document padded spells,
    fun _ _ spells => spells.cut_behindBlank⟩

/-- A digit with something behind it. -/
theorem complete_strict_document_digit :
    (Pattern.ofClass .digit).Honest (fun _ : Unit => .dropped) ∧
    (Goal.apply (Pattern.ofClass .digit).complete (.whole 0 ['1', 'x'])).Yields
      (fun _ : Unit => .dropped) (.refuseAt .trailingInput 1) ∧
    (∃ out, recognize {} .value false (.whole 0 ['1', 'x']) = .ok out ∧
      recognize {} .document false (.whole 0 ['1', 'x']) =
        .ok (out.completed (.whole 0 ['1', 'x']))) ∧
    ∃ out, recognize .rfc8259 .value false ⟨0, 1, 2, ['1', 'x']⟩ = .ok out ∧
      recognize .rfc8259 .document false (.whole 0 [' ', '1', 'x']) =
        .ok (out.padded (.whole 0 [' ', '1', 'x']) ⟨0, 1, 2, ['1', 'x']⟩) := by
  have digit := Pattern.honest_satisfy (fun _ : Unit => .dropped) CharClass.digit.accepts
  have yields : (Goal.apply (Pattern.ofClass .digit) (.whole 0 ['1', 'x'])).Yields
      (fun _ : Unit => .dropped) (.matched ⟨0, 0, 1, ['1', 'x']⟩ ⟨0, 1, 1, ['x']⟩) := ⟨1, rfl⟩
  have spells := Slice.spells_whole 0 ['1', 'x']
  have spells' := Slice.spells_whole 0 [' ', '1', 'x']
  obtain ⟨complete, _, plain, padded, _⟩ := complete_strict_document
  exact ⟨digit, (complete _ _ _ digit _ _ spells _).2 ⟨_, yields, rfl⟩,
    plain {} _ _ spells rfl, padded .rfc8259 _ _ spells' rfl⟩

end Recognizer.Command
