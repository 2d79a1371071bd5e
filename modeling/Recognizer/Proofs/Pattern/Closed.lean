import Recognizer.Proofs.Pattern.Resolutions
import Recognizer.Proofs.Pattern.Verdict

/-!
# Patterns that refer to no rules

A closed pattern refers to no rules. It never comes to look one up, so it answers alike whatever
grammar is in force (`Pattern.Closed.answers`).
-/

namespace Recognizer

variable {ρ : Type} {definitions definitions' : ρ → Resolution ρ} {p : Pattern ρ}
  {base : Slice} {g : Goal ρ} {o : Outcome}

/-- Regular and without references. -/
abbrev Pattern.Closed (p : Pattern ρ) : Prop :=
  p.RegularOver fun _ => False

/-- Only the goals that a plan asks for have to be answered anew. -/
lemma Plan.Reaches.mono_asks {answers answers' : Goal ρ → Outcome → Prop} {plan : Plan ρ}
    (yields : ∀ g o, answers g o → g.Yields definitions o)
    (h : ∀ g o, plan.Asks definitions g → answers g o → answers' g o)
    (ho : plan.Reaches answers o) : plan.Reaches answers' o := by
  induction plan with
  | done _ => exact ho
  | become g => exact h g o rfl ho
  | await g next ih =>
    obtain ⟨o', hg, hn⟩ := ho
    have behind (g' : Goal ρ) (o : Outcome) (asks : (next o').Asks definitions g') :
        answers g' o → answers' g' o := h g' o (.inr ⟨o', yields g o' hg, asks⟩)
    exact ⟨o', h g o' (.inl rfl) hg, ih o' behind hn⟩

namespace Goal

/-- The rules have a say in a plan only where one is looked up. -/
lemma plan_eq_of_opens (h : g.opens = []) : g.plan definitions = g.plan definitions' := by
  cases g with
  | resolve rule input => cases h
  | _ => rfl

/-- A goal about closed patterns looks up no rule. -/
lemma Confined.opens_eq_nil (h : g.Confined (fun _ => False) base) : g.opens = [] := by
  cases g with
  | resolve rule input => exact h.1.elim
  | _ => rfl

/-- A goal about closed patterns is answered alike whatever the rules are. -/
lemma Yields.of_confined (hd : ∀ rule p, definitions rule = .defined p → p.Regular)
    (hg : g.Confined (fun _ => False) base) (h : g.Yields definitions o) :
    g.Yields definitions' o := by
  let kept (g : Goal ρ) (o : Outcome) : Prop :=
    g.Confined (fun _ => False) base → g.Yields definitions' o
  have closed (g : Goal ρ) (o : Outcome) (reached : (g.plan definitions).Reaches
      (fun g o => g.Yields definitions o ∧ kept g o) o) : kept g o := by
    intro hg
    have none := hg.opens_eq_nil
    rw [yields_iff, ← plan_eq_of_opens none]
    refine reached.mono_asks (fun _ _ => And.left) fun g' o' asks answer => ?_
    exact answer.2 (hg.asks hd none asks)
  exact h.of_closed_yields closed hg

end Goal

/-- A closed pattern answers a text alike whatever the rules are. -/
theorem Pattern.Closed.answers (hd : ∀ rule p, definitions rule = .defined p → p.Regular)
    (hp : p.Closed) {cs : List Char} {v : Verdict} (h : p.Answers definitions cs v) :
    p.Answers definitions' cs v :=
  ⟨h.splits, fun input hi => (h.yields input hi).of_confined hd ⟨hp, .refl input⟩⟩

end Recognizer
