import Recognizer.Proofs.Pattern.Yields
import Recognizer.Proofs.Text.Tails

/-!
# What patterns answer to texts

`Pattern.Answers` forgets where a text is kept: a pattern answers a text by a verdict if every slice
with these characters has the outcome that the verdict says. There is one rule for each combinator.
Sequences and loops go on behind what they have consumed; a `Course` is such a way of going on, and
its answers are counted from the place it has come to (`Course.Answers.behind`).
-/

namespace Recognizer

open Text

/-- What a pattern says about a text, whatever lies around it. -/
inductive Verdict where
  /-- `as` is accepted and `bs` is left. -/
  | taken (as bs : List Char)
  | refused (e : Rejection)

namespace Verdict

/-- What is accepted and what is left make up the text. -/
def Splits (cs : List Char) : Verdict → Prop
  | taken as bs => cs = as ++ bs
  | refused _ => True

/-- The verdict on a text of which `as` came before. -/
def behind (as : List Char) : Verdict → Verdict
  | taken xs bs => .taken (as ++ xs) bs
  | refused e => .refused (e.shifted (byteLength as))

/-- Change the rejection, if it is one. -/
def mapRejection (f : Rejection → Rejection) : Verdict → Verdict
  | taken as bs => .taken as bs
  | refused e => .refused (f e)

/-- What is refused is refused behind its start. -/
def Commits : Verdict → Prop
  | taken _ _ => True
  | refused e => 0 < e.offset

/-- The outcome on `input` of a verdict on its tail `rest`. -/
def outcome (input rest : Slice) : Verdict → Outcome
  | taken as _ => .split input (input.progress rest + byteLength as)
  | refused e => .rejected (e.shifted (input.progress rest))

/-- Nothing comes before. -/
@[simp] lemma behind_nil (v : Verdict) : v.behind [] = v := by
  cases v with
  | taken as bs => rfl
  | refused e => rfl

/-- A rejection at the end of `bs` lies at the end of `as ++ bs` if `as` came before. -/
lemma behind_refused (as bs : List Char) (cause : Cause) :
    (refused { cause, offset := byteLength bs }).behind as =
      .refused { cause, offset := byteLength (as ++ bs) } := by
  rw [behind, Rejection.shifted, byteLength_append, Nat.add_comm]

/-- What was before belongs to the longer text. -/
lemma Splits.behind {bs : List Char} {v : Verdict} (h : v.Splits bs) (as : List Char) :
    (v.behind as).Splits (as ++ bs) := by
  cases v with
  | taken xs ys =>
    cases h
    exact (List.append_assoc as xs ys).symm
  | refused e => trivial

/-- At the start of the input, what is accepted is cut off. -/
@[simp] lemma outcome_self_taken (input : Slice) (as bs : List Char) :
    (taken as bs).outcome input input = .split input (byteLength as) := by
  rw [outcome, Slice.progress_self, Nat.zero_add]

/-- And what is refused is rejected as it is. -/
@[simp] lemma outcome_self_refused (input : Slice) (e : Rejection) :
    (refused e).outcome input input = .rejected e := by
  rw [outcome, Slice.progress_self]
  rfl

/-- A verdict behind `as` is the verdict at the tail that comes behind `as`. -/
lemma outcome_behind {input rest rest' : Slice} (hr : input.HasTail rest)
    (hr' : rest.HasTail rest') {as : List Char} (h : rest.progress rest' = byteLength as)
    (v : Verdict) : (v.behind as).outcome input rest = v.outcome input rest' := by
  have sum := hr.progress_trans hr'
  cases v with
  | taken xs bs =>
    rw [behind, outcome, outcome, byteLength_append, sum, h, Nat.add_assoc]
  | refused e =>
    rw [behind, outcome, outcome, sum, h]
    simp only [Rejection.shifted, Outcome.rejected.injEq, Rejection.mk.injEq, true_and, and_true]
    omega

end Verdict

/-- What an outcome says about the text. -/
def Outcome.verdict : Outcome → Verdict
  | matched consumed remainder => .taken consumed.chars remainder.chars
  | rejected e => .refused e

/-- The verdict can be read off its outcome. -/
lemma Verdict.verdict_outcome {input : Slice} {cs : List Char} {v : Verdict} (hv : v.Splits cs)
    (hi : input.Spells cs) : (v.outcome input input).verdict = v := by
  cases v with
  | taken as bs =>
    cases hv
    obtain ⟨taken, rest, _, _, ht, hr, hs, _⟩ := hi.split_eq
    rw [outcome_self_taken, hs, Outcome.verdict, ht.chars_eq, hr.chars_eq]
  | refused e =>
    rw [outcome_self_refused]
    rfl

variable {ρ : Type} {definitions : ρ → Resolution ρ}

/-- Every slice with the characters `cs` has the outcome of the verdict. -/
structure Pattern.Answers (definitions : ρ → Resolution ρ) (p : Pattern ρ) (cs : List Char)
    (v : Verdict) : Prop where
  splits : v.Splits cs
  yields : ∀ input : Slice, input.Spells cs →
    (Goal.apply p input).Yields definitions (v.outcome input input)

/-- A way of going on at a tail of an input. -/
abbrev Course (ρ : Type) : Type :=
  Slice → Slice → Plan ρ

/-- Every tail with the characters `cs` leads to the outcome of the verdict. -/
structure Course.Answers (definitions : ρ → Resolution ρ) (c : Course ρ) (cs : List Char)
    (v : Verdict) : Prop where
  splits : v.Splits cs
  reaches : ∀ input rest : Slice, input.HasTail rest → rest.Spells cs →
    (c input rest).Reaches (Goal.Yields definitions) (v.outcome input rest)

namespace Pattern

variable {p q : Pattern ρ} {as bs cs : List Char} {v : Verdict}

/-- A pattern answers by what its plan reaches. -/
lemma answers_of_plan (hv : v.Splits cs)
    (h : ∀ input : Slice, input.Spells cs →
      (p.plan input).Reaches (Goal.Yields definitions) (v.outcome input input)) :
    p.Answers definitions cs v :=
  ⟨hv, fun input hi => Goal.yields_iff.2 (h input hi)⟩

/-- The two slices of a match. -/
lemma Answers.matched (h : p.Answers definitions cs (.taken as bs)) {rest : Slice}
    (hr : rest.Spells cs) : ∃ taken rest', (Goal.apply p rest).Yields definitions
      (.matched taken rest') ∧ rest.HasTail rest' ∧ rest.progress rest' = byteLength as ∧
      taken.Spells as ∧ rest'.Spells bs ∧ taken.size = byteLength as := by
  have yields := h.yields rest hr
  have splits : cs = as ++ bs := h.splits
  subst splits
  obtain ⟨taken, rest', tail, progress, ht, hr', hs, size⟩ := hr.split_eq
  rw [Verdict.outcome_self_taken, hs] at yields
  exact ⟨taken, rest', yields, tail, progress, ht, hr', size⟩

/-- A refusal is a rejection on every slice with these characters. -/
lemma Answers.rejected {e : Rejection} (h : p.Answers definitions cs (.refused e)) {rest : Slice}
    (hr : rest.Spells cs) : (Goal.apply p rest).Yields definitions (.rejected e) := by
  have yields := h.yields rest hr
  rw [Verdict.outcome_self_refused] at yields
  exact yields

/-- A text has at most one verdict. -/
theorem Answers.unique {v' : Verdict} (h : p.Answers definitions cs v)
    (h' : p.Answers definitions cs v') : v = v' := by
  have hs := Slice.spells_whole 0 cs
  cases v with
  | refused e =>
    cases v' with
    | refused e' =>
      cases (h.rejected hs).unique (h'.rejected hs)
      rfl
    | taken as' bs' =>
      obtain ⟨_, _, yields, _⟩ := h'.matched hs
      cases (h.rejected hs).unique yields
  | taken as bs =>
    cases v' with
    | refused e' =>
      obtain ⟨_, _, yields, _⟩ := h.matched hs
      cases (h'.rejected hs).unique yields
    | taken as' bs' =>
      obtain ⟨_, _, yields, _, progress, _⟩ := h.matched hs
      obtain ⟨_, _, yields', _, progress', _⟩ := h'.matched hs
      cases yields.unique yields'
      -- The match is the same, so both verdicts take the same number of bytes.
      have same : as ++ bs = as' ++ bs' := h.splits.symm.trans h'.splits
      obtain ⟨rfl, rfl⟩ := append_inj_of_byteLength_eq same (progress.symm.trans progress')
      rfl

end Pattern

namespace Course

variable {c c' : Course ρ} {p : Pattern ρ} {as bs cs : List Char} {v : Verdict}

/-- A pattern that takes `as` on the way shifts what comes behind it. -/
lemma Answers.behind (hp : p.Answers definitions cs (.taken as bs))
    (step : ∀ {input rest taken rest' : Slice} {o : Outcome},
      (Goal.apply p rest).Yields definitions (.matched taken rest') →
      rest.HasTail rest' → taken.size = byteLength as → rest'.Spells bs →
      (c' input rest').Reaches (Goal.Yields definitions) o →
      (c input rest).Reaches (Goal.Yields definitions) o)
    (h : c'.Answers definitions bs v) : c.Answers definitions cs (v.behind as) := by
  have splits : cs = as ++ bs := hp.splits
  subst splits
  refine ⟨h.splits.behind as, fun input rest hr hs => ?_⟩
  obtain ⟨taken, rest', yields, tail, progress, _, hs', size⟩ := hp.matched hs
  rw [Verdict.outcome_behind hr tail progress]
  exact step yields tail size hs' (h.reaches input rest' (hr.trans tail) hs')

/-- At the start of an input, a course gives the answer of the pattern that it belongs to. -/
lemma Answers.pattern (h : c.Answers definitions cs v)
    (hc : ∀ input, p.plan input = c input input) : p.Answers definitions cs v := by
  refine Pattern.answers_of_plan h.splits fun input hi => ?_
  rw [hc]
  exact h.reaches input input (.refl input) hi

/-- A way of going on that stops where it stands accepts nothing. -/
lemma answers_nil (hc : ∀ input rest, rest.Spells bs →
    (c input rest).Reaches (Goal.Yields definitions) (.fromRemainder input rest)) :
    c.Answers definitions bs (.taken [] bs) := by
  refine ⟨rfl, fun input rest hr hs => ?_⟩
  have reaches := hc input rest hs
  rw [hr.fromRemainder_eq] at reaches
  exact reaches

end Course

end Recognizer
