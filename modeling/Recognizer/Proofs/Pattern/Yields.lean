import Mathlib.Tactic.Lemma
import Recognizer.Pattern.Run

/-!
# The answer of a goal and its plan

`Plan.Reaches` follows a plan without a bound on the depth. A goal yields what its plan reaches
(`Goal.yields_iff`), and a property of answers that every plan keeps holds of all that is yielded
(`Goal.Yields.of_closed`): the induction over a run, done once.
-/

namespace Recognizer

variable {ρ : Type} {definitions : ρ → Resolution ρ}

/-- A plan reaches an outcome if its goals may be answered as `answers` says. -/
def Plan.Reaches (answers : Goal ρ → Outcome → Prop) : Plan ρ → Outcome → Prop
  | .done o', o => o' = o
  | .become g, o => answers g o
  | .await g next, o => ∃ o', answers g o' ∧ (next o').Reaches answers o

/-- More answers reach more. -/
lemma Plan.Reaches.mono {answers answers' : Goal ρ → Outcome → Prop}
    (h : ∀ g o, answers g o → answers' g o) {plan : Plan ρ} {o : Outcome}
    (ho : plan.Reaches answers o) : plan.Reaches answers' o := by
  induction plan with
  | done _ => exact ho
  | become g => exact h g o ho
  | await g next ih =>
    obtain ⟨o', hg, hn⟩ := ho
    exact ⟨o', h g o' hg, ih o' hn⟩

/-- What is reached by a function of answers is reached by the relation that it is part of. -/
lemma Plan.reaches_of_follow {answer : Goal ρ → Option Outcome}
    {answers : Goal ρ → Outcome → Prop} (h : ∀ g o, answer g = some o → answers g o)
    {plan : Plan ρ} {o : Outcome} (ho : plan.follow answer = some o) : plan.Reaches answers o := by
  induction plan with
  | done _ => exact Option.some.inj ho
  | become g => exact h g o ho
  | await g next ih =>
    obtain ⟨o', hg, hn⟩ := Option.bind_eq_some_iff.1 ho
    exact ⟨o', h g o' hg, ih o' hn⟩

/-- What is reached is reached within some depth. -/
lemma Plan.exists_follow_of_reaches {plan : Plan ρ} {o : Outcome}
    (h : plan.Reaches (Goal.Yields definitions) o) :
    ∃ depth, plan.follow (Goal.run definitions depth) = some o := by
  induction plan with
  | done _ => exact ⟨0, congrArg some h⟩
  | become g => exact h
  | await g next ih =>
    obtain ⟨o', ⟨d, hg⟩, hn⟩ := h
    obtain ⟨d', hn⟩ := ih o' hn
    -- Both runs succeed at the greater of their depths.
    refine ⟨max d d', ?_⟩
    rw [follow, Goal.run_mono (Nat.le_max_left d d') hg, Option.bind_some]
    exact follow_mono (fun _ _ => Goal.run_mono (Nat.le_max_right d d')) hn

/-- A goal yields what its plan reaches. -/
theorem Goal.yields_iff {g : Goal ρ} {o : Outcome} :
    g.Yields definitions o ↔ (g.plan definitions).Reaches (Goal.Yields definitions) o := by
  constructor
  · rintro ⟨depth, h⟩
    cases depth with
    | zero => cases h
    | succ depth => exact Plan.reaches_of_follow (fun _ _ hg => ⟨depth, hg⟩) h
  · intro h
    obtain ⟨depth, h⟩ := Plan.exists_follow_of_reaches h
    exact ⟨depth + 1, h⟩

/-- What holds of a goal and an outcome whenever it holds of all answers on the way holds of all
that is yielded. -/
theorem Goal.Yields.of_closed {holds : Goal ρ → Outcome → Prop}
    (closed : ∀ g o, (g.plan definitions).Reaches holds o → holds g o) {g : Goal ρ} {o : Outcome}
    (h : g.Yields definitions o) : holds g o := by
  obtain ⟨depth, h⟩ := h
  induction depth generalizing g o with
  | zero => cases h
  | succ depth ih => exact closed g o (Plan.reaches_of_follow (fun _ _ => ih) h)

/-- The same where the answers on the way are also known to be yielded. -/
theorem Goal.Yields.of_closed_yields {holds : Goal ρ → Outcome → Prop}
    (closed : ∀ g o, (g.plan definitions).Reaches
      (fun g o => g.Yields definitions o ∧ holds g o) o → holds g o)
    {g : Goal ρ} {o : Outcome} (h : g.Yields definitions o) : holds g o := by
  let both (g : Goal ρ) (o : Outcome) : Prop := g.Yields definitions o ∧ holds g o
  have kept (g : Goal ρ) (o : Outcome) (reached : (g.plan definitions).Reaches both o) :
      both g o := ⟨Goal.yields_iff.2 (reached.mono fun _ _ => And.left), closed g o reached⟩
  exact (Goal.Yields.of_closed kept h).2

end Recognizer
