import Recognizer.Pattern.Machine
import Recognizer.Proofs.Pattern.Yields

/-!
# The rules that are being resolved

A run resolves rules within rules. `Moment` notes beside each state of the machine which of them
have been begun and not come to an outcome; the moments of a run go on to its end
(`Moment.exists_last`). `Plan.Nests` tells the same by plans alone, and without a bound on the
depth: how one plan comes up while another is followed, and which rules are begun on the way. What a
moment notes is always nested so (`Moment.nests_of_after`).
-/

namespace Recognizer

variable {ρ : Type} {definitions : ρ → Resolution ρ}

/-- The rules that are begun by going on with a goal. -/
def Goal.opens : Goal ρ → List ρ
  | resolve rule _ => [rule]
  | _ => []

/-- The state of the machine at some moment, and the rules that are being resolved, the innermost
first. -/
structure Moment (ρ : Type) where
  machine : Machine ρ
  rules : List ρ
  /-- For each plan that waits, the rules that are being resolved when it goes on. -/
  behind : List (List ρ)

namespace Moment

/-- Before anything has been done. -/
def start (depth : Nat) (p : Pattern ρ) (input : Slice) : Moment ρ :=
  ⟨⟨depth, .become (.apply p input), []⟩, [], []⟩

/-- What is noted on the step to the state `machine`. A rule that hands over to another goal is
still being resolved; with an outcome, all rules are left that were begun since the plan waits that
goes on with it. -/
def note (m : Moment ρ) (machine : Machine ρ) : Moment ρ :=
  match m.machine.plan with
  | .done _ => ⟨machine, m.behind.headD [], m.behind.tail⟩
  | .become g => ⟨machine, g.opens ++ m.rules, m.behind⟩
  | .await g _ => ⟨machine, g.opens ++ m.rules, m.rules :: m.behind⟩

/-- The next moment, unless the run has come to its end. -/
def next (definitions : ρ → Resolution ρ) (m : Moment ρ) : Option (Moment ρ) :=
  match m.machine.step definitions with
  | .inl _ => none
  | .inr machine => some (m.note machine)

/-- The moment after some steps, unless the run ends before. -/
def after (definitions : ρ → Resolution ρ) : Nat → Moment ρ → Option (Moment ρ)
  | 0, m => some m
  | time + 1, m => (m.next definitions).bind (after definitions time)

variable {m m' : Moment ρ}

/-- Noting a machine shows that machine. -/
@[simp] lemma machine_note (m : Moment ρ) (machine : Machine ρ) :
    (m.note machine).machine = machine := by
  rw [note]
  split <;> rfl

/-- The next moment notes what the machine has become. -/
lemma next_of_step {machine : Machine ρ} (h : m.machine.step definitions = .inr machine) :
    m.next definitions = some (m.note machine) := by
  rw [next, h]

/-- At the last moment the machine gives the answer of the run. -/
theorem exists_last (definitions : ρ → Resolution ρ) (m : Moment ρ) :
    ∃ time last, m.after definitions time = some last ∧
      last.machine.step definitions = .inl (m.machine.run definitions) := by
  generalize e : m.machine = machine
  -- Every run ends, so the induction is on what comes next.
  have acc : Acc (Machine.Next definitions) machine := machine.acc
  induction acc generalizing m with
  | intro machine _ ih =>
    subst e
    cases h : m.machine.step definitions with
    | inl answer =>
      refine ⟨0, m, rfl, ?_⟩
      rw [Machine.run_of_halt h, h]
    | inr machine' =>
      obtain ⟨time, last, after, halt⟩ := ih machine' h (m.note machine') (m.machine_note machine')
      refine ⟨time + 1, last, ?_, ?_⟩
      · rw [Moment.after, next_of_step h, Option.bind_some, after]
      · rw [halt, Machine.run_of_step h]

end Moment

namespace Plan

/-- A plan asks for a goal, on the way that it takes if its goals are answered by what they
yield. -/
def Asks (definitions : ρ → Resolution ρ) : Plan ρ → Goal ρ → Prop
  | done _, _ => False
  | become g, g' => g' = g
  | await g next, g' => g' = g ∨ ∃ o, g.Yields definitions o ∧ (next o).Asks definitions g'

/-- While `root` is followed another plan comes up, and by then these rules are being resolved, the
innermost first. -/
inductive Nests (definitions : ρ → Resolution ρ) (root : Plan ρ) : Plan ρ → List ρ → Prop where
  | refl : Nests definitions root root []
  | ask {plan : Plan ρ} {rules : List ρ} {g : Goal ρ} :
    Nests definitions root plan rules → plan.Asks definitions g →
    Nests definitions root (g.plan definitions) (g.opens ++ rules)

/-- All that `plan` asks for and reaches, `base` asks for and reaches as well. -/
structure PartOf (definitions : ρ → Resolution ρ) (plan base : Plan ρ) : Prop where
  asks : ∀ g, plan.Asks definitions g → base.Asks definitions g
  reaches : ∀ o, plan.Reaches (Goal.Yields definitions) o →
    base.Reaches (Goal.Yields definitions) o

/-- A plan is a part of itself. -/
lemma PartOf.refl (plan : Plan ρ) : plan.PartOf definitions plan :=
  ⟨fun _ h => h, fun _ h => h⟩

/-- A plan that has waited goes on as a part of what it was a part of. -/
lemma PartOf.next {base : Plan ρ} {g : Goal ρ} {next : Outcome → Plan ρ} {o : Outcome}
    (h : (await g next).PartOf definitions base) (ho : g.Yields definitions o) :
    (next o).PartOf definitions base where
  asks g' h' := h.asks g' (.inr ⟨o, ho, h'⟩)
  reaches o' h' := h.reaches o' ⟨o, ho, h'⟩

end Plan

namespace Moment

/-- The plans that wait are parts of plans that came up within `root`, each with the rules that are
noted for it, whenever they go on with one of the outcomes `answers`. -/
inductive Backed (definitions : ρ → Resolution ρ) (root : Plan ρ) :
    (Outcome → Prop) → List (Frame ρ) → List (List ρ) → Prop where
  | nil {answers : Outcome → Prop} : Backed definitions root answers [] []
  | cons {answers : Outcome → Prop} {frame : Frame ρ} {waiting : List (Frame ρ)} {base : Plan ρ}
    {rules : List ρ} {behind : List (List ρ)} :
    (∀ o, answers o → (frame.next o).PartOf definitions base) →
    root.Nests definitions base rules →
    Backed definitions root (base.Reaches (Goal.Yields definitions)) waiting behind →
    Backed definitions root answers (frame :: waiting) (rules :: behind)

/-- The plan under way is a part of one that came up within `root`, and so are those that wait. -/
def Sound (definitions : ρ → Resolution ρ) (root : Plan ρ) (m : Moment ρ) : Prop :=
  ∃ base, root.Nests definitions base m.rules ∧ m.machine.plan.PartOf definitions base ∧
    Backed definitions root (base.Reaches (Goal.Yields definitions)) m.machine.waiting m.behind

variable {root : Plan ρ} {m m' : Moment ρ}

/-- Frames that can go on from some outcomes can go on from fewer. -/
lemma Backed.mono {answers answers' : Outcome → Prop} {waiting : List (Frame ρ)}
    {behind : List (List ρ)} (h : Backed definitions root answers waiting behind)
    (ha : ∀ o, answers' o → answers o) : Backed definitions root answers' waiting behind := by
  cases h with
  | nil => exact .nil
  | cons part nests backed => exact .cons (fun o ho => part o (ha o ho)) nests backed

/-- A run starts with nothing behind it. -/
lemma sound_start (definitions : ρ → Resolution ρ) (depth : Nat) (p : Pattern ρ)
    (input : Slice) : (start depth p input).Sound definitions (.become (.apply p input)) :=
  ⟨_, .refl, .refl _, .nil⟩

/-- A step keeps moments sound. -/
lemma Sound.next (h : m.Sound definitions root) (hn : m.next definitions = some m') :
    m'.Sound definitions root := by
  obtain ⟨⟨depth, plan, waiting⟩, rules, behind⟩ := m
  obtain ⟨base, nests, part, backed⟩ := h
  cases plan with
  | done o =>
    cases backed with
    | nil => cases hn
    | @cons _ frame waiting base' rules' behind' part' nests' backed' =>
      cases hn
      exact ⟨base', nests', part' o (part.reaches o rfl), backed'⟩
  | become g =>
    cases depth with
    | zero => cases hn
    | succ depth =>
      cases hn
      refine ⟨_, nests.ask (part.asks g rfl), .refl _, backed.mono fun o ho => ?_⟩
      exact part.reaches o (Goal.yields_iff.2 ho)
  | await g next =>
    cases depth with
    | zero => cases hn
    | succ depth =>
      cases hn
      refine ⟨_, nests.ask (part.asks g (.inl rfl)), .refl _, .cons (fun o ho => ?_) nests backed⟩
      exact part.next (Goal.yields_iff.2 ho)

/-- So does a run. -/
lemma Sound.after (h : m.Sound definitions root) {time : Nat}
    (ha : m.after definitions time = some m') : m'.Sound definitions root := by
  induction time generalizing m with
  | zero =>
    cases ha
    exact h
  | succ time ih =>
    obtain ⟨m₁, hn, ha⟩ := Option.bind_eq_some_iff.1 ha
    exact ih (h.next hn) ha

/-- The rules that are being resolved at some moment of a run are nested within its goal. -/
theorem nests_of_after {depth time : Nat} {p : Pattern ρ} {input : Slice}
    (h : (start depth p input).after definitions time = some m) :
    ∃ base, (Plan.become (.apply p input)).Nests definitions base m.rules := by
  obtain ⟨base, nests, _, _⟩ := (sound_start definitions depth p input).after h
  exact ⟨base, nests⟩

end Moment

end Recognizer
