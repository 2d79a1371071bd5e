import Recognizer.Pattern.Run

/-!
# Evaluation without native recursion

The machine keeps the plans that wait for an outcome in a list, so that the nesting depth of an
input costs memory and not native stack. Each plan carries the depth it may still use; this makes
every run end (`Machine.acc`). The machine answers exactly as `Goal.run` does
(`Pattern.parse?_eq_run`).
-/

namespace Recognizer

variable {ρ : Type}

/-- A plan that waits for an outcome, and the depth it goes on with. -/
structure Frame (ρ : Type) where
  depth : Nat
  next : Outcome → Plan ρ

/-- A plan under way and those that wait for it, the innermost first. -/
structure Machine (ρ : Type) where
  depth : Nat
  plan : Plan ρ
  waiting : List (Frame ρ)

namespace Machine

variable (definitions : ρ → Resolution ρ)

/-- One step: to another state, or to the end. A run that needs more depth than it has ends without
an outcome. -/
def step : Machine ρ → Option Outcome ⊕ Machine ρ
  | ⟨_, .done o, []⟩ => .inl (some o)
  | ⟨_, .done o, frame :: waiting⟩ => .inr ⟨frame.depth, frame.next o, waiting⟩
  | ⟨0, .become _, _⟩ => .inl none
  | ⟨depth + 1, .become g, waiting⟩ => .inr ⟨depth, g.plan definitions, waiting⟩
  | ⟨0, .await _ _, _⟩ => .inl none
  | ⟨depth + 1, .await g next, waiting⟩ =>
    .inr ⟨depth, g.plan definitions, ⟨depth + 1, next⟩ :: waiting⟩

/-- `m'` comes next after `m`. -/
def Next (m' m : Machine ρ) : Prop :=
  m.step definitions = .inr m'

variable {definitions}

/-- A run that goes on to one that ends does end. -/
theorem acc_of_step {m m' : Machine ρ} (h : m.step definitions = .inr m')
    (acc : Acc (Next definitions) m') : Acc (Next definitions) m :=
  ⟨m, fun _ hn => Sum.inr.inj (h.symm.trans hn) ▸ acc⟩

/-- A run that has halted ends. -/
theorem acc_of_halt {m : Machine ρ} {r : Option Outcome} (h : m.step definitions = .inl r) :
    Acc (Next definitions) m :=
  ⟨m, fun _ hn => nomatch h.symm.trans hn⟩

/-- A run ends if it ends from each outcome that its plan may reach. -/
theorem acc_of_done {waiting : List (Frame ρ)}
    (h : ∀ depth o, Acc (Next definitions) ⟨depth, .done o, waiting⟩) (depth : Nat)
    (plan : Plan ρ) : Acc (Next definitions) ⟨depth, plan, waiting⟩ := by
  induction depth generalizing plan waiting with
  | zero =>
    cases plan with
    | done o => exact h 0 o
    | become _ => exact acc_of_halt rfl
    | await _ _ => exact acc_of_halt rfl
  | succ depth ih =>
    induction plan with
    | done o => exact h _ o
    | become g => exact acc_of_step rfl (ih h _)
    | await g next ihn => exact acc_of_step rfl (ih (fun _ o => acc_of_step rfl (ihn o)) _)

/-- Every run ends. -/
theorem acc (m : Machine ρ) : Acc (Next definitions) m := by
  obtain ⟨depth, plan, waiting⟩ := m
  induction waiting generalizing depth plan with
  | nil => exact acc_of_done (fun _ _ => acc_of_halt rfl) depth plan
  | cons frame waiting ih =>
    exact acc_of_done (fun _ o => acc_of_step rfl (ih frame.depth (frame.next o))) depth plan

/-- The outcome at the end of the run. -/
def run (definitions : ρ → Resolution ρ) (m : Machine ρ) : Option Outcome :=
  match _h : m.step definitions with
  | .inl answer => answer
  | .inr m' => run definitions m'
termination_by (⟨acc⟩ : WellFounded (Next definitions)).wrap m
decreasing_by exact _h

/-- A step does not change where a run ends. -/
theorem run_of_step {m m' : Machine ρ} (h : m.step definitions = .inr m') :
    m.run definitions = m'.run definitions := by
  rw [run]
  split
  · next h' => cases h.symm.trans h'
  · next h' => rw [Sum.inr.inj (h.symm.trans h')]

/-- A run that halts ends with its answer. -/
theorem run_of_halt {m : Machine ρ} {answer : Option Outcome}
    (h : m.step definitions = .inl answer) : m.run definitions = answer := by
  rw [run]
  split
  · next h' => exact (Sum.inl.inj (h.symm.trans h')).symm
  · next h' => cases h.symm.trans h'

/-- An outcome that has been reached goes to the first frame, whatever depth was left. -/
theorem run_done (depth depth' : Nat) (o : Outcome) (waiting : List (Frame ρ)) :
    run definitions ⟨depth, .done o, waiting⟩ = run definitions ⟨depth', .done o, waiting⟩ := by
  cases waiting with
  | nil => rw [run_of_halt rfl, run_of_halt rfl]
  | cons frame waiting => exact (run_of_step rfl).trans (run_of_step rfl).symm

/-- A run follows its plan and hands the outcome to the frames. -/
theorem run_eq (depth : Nat) (plan : Plan ρ) (waiting : List (Frame ρ)) :
    run definitions ⟨depth, plan, waiting⟩ =
      (plan.follow (Goal.run definitions depth)).bind fun o =>
        run definitions ⟨depth, .done o, waiting⟩ := by
  induction depth generalizing plan waiting with
  | zero =>
    cases plan with
    | done o => rfl
    | become g => rw [run_of_halt rfl]; rfl
    | await g next => rw [run_of_halt rfl]; rfl
  | succ depth ih =>
    induction plan with
    | done o => rfl
    | become g =>
      rw [run_of_step rfl, ih]
      exact congrArg _ (funext fun o => run_done _ _ o waiting)
    | await g next ihn =>
      rw [run_of_step rfl, ih, Plan.follow, Option.bind_assoc]
      exact congrArg _ (funext fun o => (run_of_step rfl).trans (ihn o))

end Machine

/-- Apply a pattern to an input, following the definitions of rules, while goals nest less than
`depth` deep. -/
def Pattern.parse? (definitions : ρ → Resolution ρ) (depth : Nat) (p : Pattern ρ)
    (input : Slice) : Option Outcome :=
  Machine.run definitions ⟨depth, .become (.apply p input), []⟩

/-- The machine gives the answers of `Goal.run`. -/
theorem Pattern.parse?_eq_run (definitions : ρ → Resolution ρ) (depth : Nat) (p : Pattern ρ)
    (input : Slice) :
    p.parse? definitions depth input = (Goal.apply p input).run definitions depth := by
  rw [parse?, Machine.run_eq]
  exact (congrArg _ (funext fun o => Machine.run_of_halt rfl)).trans (Option.bind_fun_some _)

end Recognizer
