import Recognizer.Pattern.Plan

/-!
# Evaluation by recursion

`Goal.run` answers a goal by following its plan, with a bound on how deeply goals may nest in each
other. The bound only cuts answers off: with a larger one an answer stays as it is
(`Goal.run_mono`), so that `Goal.Yields`, an answer within some bound, is a function of the goal
(`Goal.Yields.unique`).
-/

namespace Recognizer

variable {ρ : Type} {definitions : ρ → Resolution ρ}

/-- Follow a plan, taking the outcomes of its goals from `answer`. -/
def Plan.follow (answer : Goal ρ → Option Outcome) : Plan ρ → Option Outcome
  | .done o => some o
  | .become g => answer g
  | .await g next => (answer g).bind fun o => (next o).follow answer

/-- The outcome of a goal, if goals nest less than `depth` deep on the way to it. -/
def Goal.run (definitions : ρ → Resolution ρ) : Nat → Goal ρ → Option Outcome
  | 0, _ => none
  | depth + 1, g => (g.plan definitions).follow (Goal.run definitions depth)

/-- A goal is answered by an outcome. -/
def Goal.Yields (definitions : ρ → Resolution ρ) (g : Goal ρ) (o : Outcome) : Prop :=
  ∃ depth, g.run definitions depth = some o

/-- A plan that reaches an outcome still does when more goals are answered. -/
theorem Plan.follow_mono {answer answer' : Goal ρ → Option Outcome}
    (h : ∀ g o, answer g = some o → answer' g = some o) {plan : Plan ρ} {o : Outcome}
    (ho : plan.follow answer = some o) : plan.follow answer' = some o := by
  induction plan with
  | done _ => exact ho
  | become g => exact h g o ho
  | await g next ih =>
    obtain ⟨o', hg, hn⟩ := Option.bind_eq_some_iff.1 ho
    exact Option.bind_eq_some_iff.2 ⟨o', h g o' hg, ih o' hn⟩

/-- An outcome stays the same with one more level of depth. -/
theorem Goal.run_succ {depth : Nat} {g : Goal ρ} {o : Outcome}
    (h : g.run definitions depth = some o) : g.run definitions (depth + 1) = some o := by
  induction depth generalizing g o with
  | zero => cases h
  | succ depth ih => exact Plan.follow_mono (fun _ _ => ih) h

/-- A larger bound keeps every answer. -/
theorem Goal.run_mono {depth depth' : Nat} (le : depth ≤ depth') {g : Goal ρ} {o : Outcome}
    (h : g.run definitions depth = some o) : g.run definitions depth' = some o := by
  induction le with
  | refl => exact h
  | step _ ih => exact Goal.run_succ ih

/-- A goal has at most one answer. -/
theorem Goal.Yields.unique {g : Goal ρ} {o o' : Outcome} (h : g.Yields definitions o)
    (h' : g.Yields definitions o') : o = o' := by
  obtain ⟨d, hd⟩ := h
  obtain ⟨d', hd'⟩ := h'
  have left := Goal.run_mono (Nat.le_max_left d d') hd
  have right := Goal.run_mono (Nat.le_max_right d d') hd'
  exact Option.some.inj (left.symm.trans right)

end Recognizer
