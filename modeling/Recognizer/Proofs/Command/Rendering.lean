import Recognizer.Command.Match
import Recognizer.Command.Report
import Recognizer.Proofs.Json.Causes
import Recognizer.Proofs.Json.Documents
import Recognizer.Proofs.Text.Quoted

/-!
# Outcomes and their lines

The line in which an outcome is shown determines all that can be read off the outcome
(`Outcome.view`). For a match this is so because a quoted text determines the text and what follows
it. The wording of a rejection ends where the line has its first digit, if the wording itself has
none (`Rejection.describe_inj`), and no wording has any that a match can come to on the command
line.
-/

namespace Recognizer

open Text

namespace Rejection

variable {e e' : Rejection}

/-- The wording of the cause has no digits. -/
def Digitless (e : Rejection) : Prop :=
  ∀ c ∈ e.message.toList, c.isDigit = false

/-- What is said of the context, behind the offset. -/
def suffix : Option String → String
  | some name => " (while parsing " ++ name ++ ")"
  | none => ""

/-- A context is named in brackets. -/
lemma suffix_some (name : String) : suffix (some name) = " (while parsing " ++ name ++ ")" := rfl

/-- Without a context nothing is said. -/
lemma toList_suffix_none : (suffix none).toList = [] := String.toList_empty

/-- Behind the offset comes a blank, if anything. -/
lemma head?_suffix (name : String) : (suffix (some name)).toList.head? = some ' ' := by
  have initial : " (while parsing ".toList.head? = some ' ' := by decide +kernel
  rw [suffix_some, String.append_assoc, String.toList_append, List.head?_append, initial,
    Option.some_or]

/-- What comes behind the offset does not go on with a digit. -/
lemma isDigit_head_suffix (context : Option String) :
    ∀ c ∈ (suffix context).toList.head?, c.isDigit = false := by
  cases context with
  | none =>
    rw [toList_suffix_none]
    nofun
  | some name =>
    rw [head?_suffix]
    rintro c ⟨⟩
    rfl

/-- A named context is different from none. -/
lemma suffix_ne (name : String) : suffix (some name) ≠ suffix none := by
  intro h
  have blank := head?_suffix name
  rw [h, toList_suffix_none] at blank
  cases blank

/-- The context can be read off what is said of it. -/
lemma suffix_inj {context context' : Option String} (h : suffix context = suffix context') :
    context = context' := by
  cases context with
  | none =>
    cases context' with
    | none => rfl
    | some name' => exact absurd h.symm (suffix_ne name')
  | some name =>
    cases context' with
    | none => exact absurd h (suffix_ne name)
    | some name' =>
      rw [suffix_some, suffix_some, String.append_left_inj, String.append_right_inj] at h
      rw [h]

/-- A description has the wording, the offset and the context. -/
lemma describe_eq (e : Rejection) :
    e.describe = e.message ++ " at byte " ++ toString e.offset ++ suffix e.context := by
  obtain ⟨cause, offset, context⟩ := e
  cases context <;> rfl

/-- The same by characters, cut where the digits of the offset start. -/
lemma toList_describe (e : Rejection) : e.describe.toList =
    (e.message.toList ++ " at byte ".toList) ++
      (Nat.toDigits 10 e.offset ++ (suffix e.context).toList) := by
  rw [describe_eq, String.append_assoc, String.toList_append, String.toList_append,
    String.toList_append, toList_toString]

/-- No digit comes before the offset. -/
lemma Digitless.not_isDigit (h : e.Digitless) :
    ∀ c ∈ e.message.toList ++ " at byte ".toList, (!c.isDigit) = true := by
  have between : " at byte ".toList.all (!·.isDigit) = true := by decide +kernel
  intro c mem
  obtain wording | place := List.mem_append.1 mem
  · rw [h c wording]
    rfl
  · exact List.all_eq_true.1 between c place

/-- A rejection can be read off its line, if its wording has no digits. -/
lemma describe_inj (h : e.describe = e'.describe) (plain : e.Digitless) (plain' : e'.Digitless) :
    e.message = e'.message ∧ e.offset = e'.offset ∧ e.context = e'.context := by
  have same : e.describe.toList = e'.describe.toList := by rw [h]
  rw [toList_describe, toList_describe] at same
  -- The wording ends before the first digit, and the offset behind the last one that follows it.
  obtain ⟨wordings, places⟩ := append_inj_of_head same plain.not_isDigit plain'.not_isDigit
    (isDigit_head_toDigits _ _) (isDigit_head_toDigits _ _)
  obtain ⟨offsets, suffixes⟩ := append_inj_of_head places (isDigit_toDigits _) (isDigit_toDigits _)
    (isDigit_head_suffix _) (isDigit_head_suffix _)
  rw [List.append_cancel_right_eq, String.toList_inj] at wordings
  exact ⟨wordings, toDigits_inj (by decide) (by decide) offsets,
    suffix_inj (String.toList_inj.1 suffixes)⟩

end Rejection

namespace Command

variable {out out' : Outcome} {consumed remainder consumed' remainder' : Slice}

/-- The characters of a match are two quoted texts with fixed ones around them. -/
lemma toList_renderOutcome_matched (consumed remainder : Slice) :
    (renderOutcome (.matched consumed remainder)).toList = "Matched(".toList ++
      (quoteChars consumed.toString.toList ++
        (", ".toList ++ (quoteChars remainder.toString.toList ++ ")".toList))) := by
  have quoted (s : String) : (quote s).toList = quoteChars s.toList := String.toList_ofList
  have split (a b c d e : String) : (a ++ b ++ c ++ d ++ e).toList =
      a.toList ++ (b.toList ++ (c.toList ++ (d.toList ++ e.toList))) := by
    simp only [String.toList_append, List.append_assoc]
  rw [renderOutcome, split, quoted, quoted]

/-- The two parts of a match can be read off its line. -/
lemma renderOutcome_matched_inj :
    renderOutcome (.matched consumed remainder) = renderOutcome (.matched consumed' remainder') ↔
      consumed.toString = consumed'.toString ∧ remainder.toString = remainder'.toString := by
  constructor
  · intro h
    have same := congrArg String.toList h
    rw [toList_renderOutcome_matched, toList_renderOutcome_matched,
      List.append_cancel_left_eq] at same
    obtain ⟨first, behind⟩ := quoteChars_append_inj same
    rw [List.append_cancel_left_eq] at behind
    obtain ⟨second, _⟩ := quoteChars_append_inj behind
    exact ⟨String.toList_inj.1 first, String.toList_inj.1 second⟩
  · rintro ⟨first, second⟩
    rw [renderOutcome, renderOutcome, first, second]

/-- Matches and rejections are shown by different words. -/
lemma renderOutcome_matched_ne (consumed remainder : Slice) (e : Rejection) :
    renderOutcome (.matched consumed remainder) ≠ renderOutcome (.rejected e) := by
  have initial : "Matched(".toList.head? = some 'M' := by decide +kernel
  have initial' : "Rejected(".toList.head? = some 'R' := by decide +kernel
  have matched : (renderOutcome (.matched consumed remainder)).toList.head? = some 'M' := by
    rw [toList_renderOutcome_matched, List.head?_append, initial, Option.some_or]
  have rejected : (renderOutcome (.rejected e)).toList.head? = some 'R' := by
    rw [renderOutcome, String.append_assoc, String.toList_append, List.head?_append, initial',
      Option.some_or]
  intro h
  rw [h, rejected] at matched
  cases matched

/-- The wording of a rejection has no digits. -/
def Digitless : Outcome → Prop
  | .matched _ _ => True
  | .rejected e => e.Digitless

/-- Outcomes are shown alike if all that can be read off them is alike. -/
lemma renderOutcome_eq_iff (h : Digitless out) (h' : Digitless out') :
    renderOutcome out = renderOutcome out' ↔ out.view = out'.view := by
  cases out with
  | matched consumed remainder =>
    cases out' with
    | matched consumed' remainder' =>
      rw [renderOutcome_matched_inj, Outcome.view, Outcome.view, Outcome.View.matched.injEq]
    | rejected e' =>
      exact ⟨fun same => absurd same (renderOutcome_matched_ne _ _ _), nofun⟩
  | rejected e =>
    cases out' with
    | matched consumed' remainder' =>
      exact ⟨fun same => absurd same.symm (renderOutcome_matched_ne _ _ _), nofun⟩
    | rejected e' =>
      rw [Outcome.view, Outcome.view, Outcome.View.rejected.injEq]
      constructor
      · intro same
        rw [renderOutcome, renderOutcome, String.append_left_inj, String.append_right_inj] at same
        exact Rejection.describe_inj same h h'
      · rintro ⟨message, offset, context⟩
        rw [renderOutcome, renderOutcome, Rejection.describe_eq, Rejection.describe_eq, message,
          offset, context]

/-- Words that are expected have no digits. -/
lemma digitless_of_asExpected (h : Json.AsExpected out) : Digitless out := by
  have none : Json.expectedMessages.all (·.toList.all (!·.isDigit)) = true := by decide +kernel
  cases out with
  | matched consumed remainder => trivial
  | rejected e =>
    have plain := List.all_eq_true.1 none e.message h.1
    intro c mem
    rw [← Bool.not_eq_true']
    exact List.all_eq_true.1 plain c mem

/-- A match comes to an outcome, and the wording of a rejection has no digits. -/
lemma exists_matchText (text : String) (options : MatchOptions) :
    ∃ out, matchText text options = .ok out ∧ Digitless out := by
  have matcher := Json.Entry.matcher_eq { literals := options.literals } options.rule.entry
    options.strict
  obtain ⟨out, outcome⟩ := Json.exists_recognize matcher (.ofString 0 text)
  refine ⟨out, by rw [matchText, outcome]; rfl, ?_⟩
  have yields := (Json.recognize_eq_ok_iff matcher).1 outcome
  rw [Matcher.scope, ← List.append_nil (Pattern.keeps _)] at yields
  exact digitless_of_asExpected
    (Json.Entry.asExpected_of_yields (Slice.spells_whole 0 text.toList) yields)

/-- The line that is printed for a match determines its outcome. Whatever the two texts and the
options are, there are outcomes, and they are shown alike only if they have the same two parts, or
the same wording, offset and context. The two parts of a match can be read off its line whatever
characters they are of, and no rejection at all is shown as a match is. -/
theorem renderOutcome_unambiguous :
    (∀ (text text' : String) (options options' : MatchOptions), ∃ out out',
      matchText text options = .ok out ∧ matchText text' options' = .ok out' ∧
        (renderOutcome out = renderOutcome out' ↔ out.view = out'.view)) ∧
    (∀ consumed remainder consumed' remainder' : Slice,
      renderOutcome (.matched consumed remainder) = renderOutcome (.matched consumed' remainder') ↔
        consumed.toString = consumed'.toString ∧ remainder.toString = remainder'.toString) ∧
    ∀ (consumed remainder : Slice) (e : Rejection),
      renderOutcome (.matched consumed remainder) ≠ renderOutcome (.rejected e) := by
  refine ⟨?_, fun _ _ _ _ => renderOutcome_matched_inj, renderOutcome_matched_ne⟩
  intro text text' options options'
  obtain ⟨out, outcome, plain⟩ := exists_matchText text options
  obtain ⟨out', outcome', plain'⟩ := exists_matchText text' options'
  exact ⟨out, out', outcome, outcome', renderOutcome_eq_iff plain plain'⟩

end Command

end Recognizer
