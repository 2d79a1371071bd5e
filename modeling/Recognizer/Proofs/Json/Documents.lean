import Recognizer.Proofs.Json.Recognition
import Recognizer.Proofs.Json.Regular
import Recognizer.Proofs.Pattern.Complete

/-!
# Documents and the values in them

An entry point that is strict answers as the one that is not, completed
(`Entry.exists_completed`). A document is such a value, or one with whitespace around it: then it
answers as the value does behind the first whitespace, unless something is left behind the second
one (`Outcome.padded`).
-/

namespace Recognizer

open Text

variable {s input inner : Slice} {t : List Char}

/-- What comes behind the whitespace at the start of a slice. -/
def Slice.behindBlank (s : Slice) : Slice :=
  match s.splitAt? (byteLength (s.chars.takeWhile CharClass.whitespace.accepts)) with
  | some (_, rest) => rest
  | none => s

/-- The whitespace at the start of a slice is the longest leading part that is all whitespace. -/
lemma Slice.Spells.cut_behindBlank (h : s.Spells t) :
    s.Cut s.behindBlank (t.takeWhile CharClass.whitespace.accepts)
      (t.dropWhile CharClass.whitespace.accepts) := by
  have whole := h
  rw [← List.takeWhile_append_dropWhile (p := CharClass.whitespace.accepts) (l := t)] at whole
  obtain ⟨taken, rest, split, _, hr⟩ := whole.splitAt?_eq
  have behind : s.behindBlank = rest := by
    rw [behindBlank, h.chars_eq, split]
  rw [behind]
  exact ⟨⟨_, _, split⟩, progress_of_splitAt? split, whole, hr⟩

/-- The outcome on `input` of a document that has whitespace around its value, if this is the
outcome of the value on `inner`. -/
def Outcome.padded (input inner : Slice) : Outcome → Outcome
  | matched _ remainder =>
    if remainder.behindBlank.isEmpty then .matched input remainder.behindBlank
    else .refuseAt .trailingInput (input.progress remainder.behindBlank)
  | rejected e => .rejected (e.shifted (input.progress inner))

namespace Json

variable {o : Options} {entry : Entry} {m : Matcher} {out : Outcome}

/-- An entry point splits what it is given. -/
lemma Entry.honest_of_prepare (h : entry.prepare o .empty = .ok m) :
    m.pattern.Honest m.scope.definitions := by
  obtain ⟨regular, store⟩ := regular_prepare Store.regular_empty h
  exact regular.honest fun _ _ => Store.Regular.definitions store

/-- Every entry point comes to an outcome, strict or not. -/
lemma exists_recognize {strict : Bool} (hm : entry.matcher o strict = .ok m) (input : Slice) :
    ∃ out, recognize o entry strict input = .ok out := by
  rw [recognize]
  split
  · exact ⟨_, rfl⟩
  · next h => cases h.symm.trans hm

/-- A strict entry point answers as the entry point does, completed. -/
lemma Entry.exists_completed (o : Options) (entry : Entry) (spells : input.Spells t) :
    ∃ out, recognize o entry false input = .ok out ∧
      recognize o entry true input = .ok (out.completed input) := by
  obtain ⟨m, hm⟩ : ∃ m, entry.prepare o .empty = .ok m := by
    cases entry <;> exact ⟨_, rfl⟩
  have loose : entry.matcher o false = .ok m := by
    rw [matcher, hm]
    rfl
  have strict : entry.matcher o true = .ok m.complete := by
    rw [matcher, hm]
    rfl
  obtain ⟨out, ho⟩ := exists_recognize loose input
  refine ⟨out, ho, (recognize_eq_ok_iff strict).2 ?_⟩
  rw [scope_complete]
  exact (honest_of_prepare hm).complete spells ((recognize_eq_ok_iff loose).1 ho)

/-- The outcome of an entry point is that of its rule. -/
lemma Start.recognize_eq_ok_iff (start : Start) :
    recognize o start.entry false input = .ok out ↔
      (Goal.apply (start.pattern o) input).Yields (definitions o) out := by
  rw [Json.recognize_eq_ok_iff (start.matcher_entry o), Matcher.scope, start.keeps_pattern,
    definitions]

/-- There is one, by both. -/
lemma Start.exists_yields (o : Options) (start : Start) (input : Slice) : ∃ out,
    recognize o start.entry false input = .ok out ∧
      (Goal.apply (start.pattern o) input).Yields (definitions o) out := by
  obtain ⟨out, ho⟩ := exists_recognize (start.matcher_entry o) input
  exact ⟨out, ho, start.recognize_eq_ok_iff.1 ho⟩

/-- A value splits what it is given. -/
lemma honest_value (o : Options) : (Start.value.pattern o).Honest (definitions o) :=
  Entry.honest_of_prepare (Entry.prepare_value o)

/-- A document without whitespace around it is a value that is all there is. -/
lemma exists_completed_document (plain : o.surroundingWhitespace = false)
    (spells : input.Spells t) : ∃ out, recognize o .value false input = .ok out ∧
      recognize o .document false input = .ok (out.completed input) := by
  obtain ⟨out, ho, yields⟩ := Start.value.exists_yields o input
  refine ⟨out, ho, Start.document.recognize_eq_ok_iff.2 ?_⟩
  rw [Start.pattern, documentOf, plain, if_neg Bool.false_ne_true]
  exact (honest_value o).complete spells yields

/-- Whitespace is taken as far as it goes. -/
lemma takeWhile_blank {w bs : List Char} (hw : IsBlank w) (hbs : Unblank bs) :
    (w ++ bs).takeWhile CharClass.whitespace.accepts = w := by
  rw [List.takeWhile_append_of_pos hw]
  cases bs with
  | nil => exact List.append_nil w
  | cons c bs => rw [List.takeWhile_cons_of_neg (by simp [hbs c rfl]), List.append_nil]

/-- Whitespace leaves what comes behind it. -/
lemma yields_whitespace (definitions : Link → Resolution Link) (spells : s.Spells t) :
    ∃ taken, (Goal.apply whitespace s).Yields definitions (.matched taken s.behindBlank) := by
  obtain ⟨w, bs, rfl, hw, hbs, ha⟩ := exists_blank definitions t
  obtain ⟨taken, rest, yields, tail, progress, _⟩ := ha.matched spells
  obtain ⟨_, split⟩ := tail.splitAt?_progress
  have behind : s.behindBlank = rest := by
    rw [Slice.behindBlank, spells.chars_eq, takeWhile_blank hw hbs, ← progress, split]
  rw [behind]
  exact ⟨taken, yields⟩

/-- A document with whitespace around it is read behind that whitespace. -/
lemma exists_padded_document (padded : o.surroundingWhitespace = true) (spells : input.Spells t) :
    ∃ out, recognize o .value false input.behindBlank = .ok out ∧
      recognize o .document false input = .ok (out.padded input input.behindBlank) := by
  have cut := spells.cut_behindBlank
  obtain ⟨out, ho, yields⟩ := Start.value.exists_yields o input.behindBlank
  obtain ⟨_, blank⟩ := yields_whitespace (definitions o) spells
  refine ⟨out, ho, Start.document.recognize_eq_ok_iff.2 ?_⟩
  rw [Start.pattern, documentOf, padded, if_pos rfl]
  refine Goal.yields_iff.2 ⟨_, blank, out, yields, ?_⟩
  cases out with
  | rejected e => rfl
  | matched consumed remainder =>
    obtain ⟨_, value⟩ := (honest_value o).cut cut.rest yields
    obtain ⟨_, blank'⟩ := yields_whitespace (definitions o) value.rest
    have behind := value.rest.cut_behindBlank
    exact ⟨_, blank', Plan.reaches_ofEnd ((cut.trans value).trans behind).tail⟩

end Json

end Recognizer
