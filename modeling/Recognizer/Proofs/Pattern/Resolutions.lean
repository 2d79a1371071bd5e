import Recognizer.Proofs.Pattern.Cuts
import Recognizer.Proofs.Pattern.Moments

/-!
# How deeply resolutions nest

`Goal.NestsWithin` bounds how many rules are being resolved at once while a goal is answered. It
does not say that the run ends: a set of goals that is left only to goals for which the bound is
known has it as well (`Goal.nestsWithin_of_closed`), though loops may go round in it. A regular
pattern asks for no other rules than it refers to, and for these at tails of its input, so it nests
as they do (`Goal.nestsWithin_of_regular`).
-/

namespace Recognizer

variable {ρ : Type} {definitions : ρ → Resolution ρ} {good : ρ → Prop} {g : Goal ρ} {n : Nat}
  {base input rest : Slice}

/-- At no time are more than `n` rules being resolved for the goal. -/
def Goal.NestsWithin (definitions : ρ → Resolution ρ) (n : Nat) (g : Goal ρ) : Prop :=
  ∀ plan rules, (Plan.become g).Nests definitions plan rules → rules.length ≤ n

/-- What nests within a plan nests within a goal that the plan asks for, if it is not the plan
itself. -/
lemma Plan.Nests.cases_asks {root plan : Plan ρ} {rules : List ρ}
    (h : root.Nests definitions plan rules) : plan = root ∧ rules = [] ∨
      ∃ g rules', root.Asks definitions g ∧ (g.plan definitions).Nests definitions plan rules' ∧
        rules = rules' ++ g.opens := by
  induction h with
  | refl => exact .inl ⟨rfl, rfl⟩
  | @ask plan rules g _ asks ih =>
    rcases ih with ⟨rfl, rfl⟩ | ⟨g', rules', asks', nests, rfl⟩
    · exact .inr ⟨g, [], asks, .refl, List.append_nil _⟩
    · exact .inr ⟨g', g.opens ++ rules', asks', nests.ask asks, (List.append_assoc ..).symm⟩

namespace Goal

/-- A set of goals that open no rules nests as the goals do by which it is left. -/
theorem nestsWithin_of_closed {closed : Goal ρ → Prop} (none : ∀ g, closed g → g.opens = [])
    (step : ∀ g, closed g → ∀ g', (g.plan definitions).Asks definitions g' →
      closed g' ∨ g'.NestsWithin definitions n)
    (h : closed g) : g.NestsWithin definitions n := by
  intro plan rules nests
  -- Either all is in the set up to here, or a goal has been met for which the bound is known.
  have cases : (rules = [] ∧ ∀ g', plan.Asks definitions g' →
        closed g' ∨ g'.NestsWithin definitions n) ∨
      ∃ g', g'.NestsWithin definitions n ∧ (Plan.become g').Nests definitions plan rules := by
    induction nests with
    | refl => exact .inl ⟨rfl, fun g' e => .inl (e ▸ h)⟩
    | @ask plan rules g' _ asks ih =>
      rcases ih with ⟨rfl, inside⟩ | ⟨g'', within, nests⟩
      · rcases inside g' asks with hc | within
        · exact .inl ⟨by rw [none g' hc, List.append_nil], step g' hc⟩
        · exact .inr ⟨g', within, .ask .refl rfl⟩
      · exact .inr ⟨g'', within, nests.ask asks⟩
  rcases cases with ⟨rfl, _⟩ | ⟨g', within, nests⟩
  · exact Nat.zero_le n
  · exact within plan rules nests

/-- A goal that opens no rules nests as the goals do that it asks for. -/
lemma nestsWithin_of_asks (none : g.opens = [])
    (h : ∀ g', (g.plan definitions).Asks definitions g' → g'.NestsWithin definitions n) :
    g.NestsWithin definitions n := by
  -- The set has no other goal in it.
  have opens (g₁ : Goal ρ) (e : g₁ = g) : g₁.opens = [] := e ▸ none
  have step (g₁ : Goal ρ) (e : g₁ = g) (g' : Goal ρ)
      (asks : (g₁.plan definitions).Asks definitions g') :
      g' = g ∨ g'.NestsWithin definitions n := .inr (h g' (e ▸ asks))
  exact nestsWithin_of_closed opens step rfl

/-- To resolve a rule is one resolution more than its definition takes. -/
lemma nestsWithin_resolve {rule : ρ} {definition : Pattern ρ}
    (hr : definitions rule = .defined definition)
    (h : (apply definition input).NestsWithin definitions n) :
    (resolve rule input).NestsWithin definitions (n + 1) := by
  intro plan rules nests
  rcases nests.cases_asks with ⟨_, rfl⟩ | ⟨_, rules', rfl, inner, rfl⟩
  · exact Nat.zero_le _
  · have plans : (resolve rule input).plan definitions = .become (apply definition input) := by
      rw [Goal.plan, hr]
    rw [plans] at inner
    rw [List.length_append]
    exact Nat.succ_le_succ (h plan rules' inner)

/-- The goal is about regular patterns over `good` rules, or about such a rule, at a tail of
`base`. -/
def Confined (good : ρ → Prop) (base : Slice) : Goal ρ → Prop
  | apply p input => p.RegularOver good ∧ base.HasTail input
  | resolve rule input => good rule ∧ base.HasTail input
  | repeating body _ _ _ rest _ => body.RegularOver good ∧ base.HasTail rest
  | scanning stop body _ rest =>
    stop.RegularOver good ∧ body.RegularOver good ∧ base.HasTail rest
  | listing element separator _ _ rest _ =>
    element.RegularOver good ∧ separator.RegularOver good ∧ base.HasTail rest

end Goal

/-- What is left behind a match of a regular pattern is a tail of the input. -/
lemma Pattern.RegularOver.hasTail (hd : ∀ rule p, definitions rule = .defined p → p.Regular)
    {p : Pattern ρ} (hp : p.RegularOver good) {consumed : Slice}
    (h : (Goal.apply p input).Yields definitions (.matched consumed rest)) :
    input.HasTail rest :=
  (hp.cuts hd h).hasTail

namespace Plan

variable (hd : ∀ rule p, definitions rule = .defined p → p.Regular)

include hd

/-- A sequence asks about its parts at tails of the input. -/
lemma confined_of_ofParts {parts : List (Pattern ρ)} (hp : ∀ p ∈ parts, p.RegularOver good)
    (hr : base.HasTail rest) (h : (ofParts input parts rest).Asks definitions g) :
    g.Confined good base := by
  induction parts generalizing rest with
  | nil => exact h.elim
  | cons p ps ih =>
    rw [List.forall_mem_cons] at hp
    rcases h with rfl | ⟨o, yields, h⟩
    · exact ⟨hp.1, hr⟩
    · cases o with
      | matched consumed remainder => exact ih hp.2 (hr.trans (hp.1.hasTail hd yields)) h
      | rejected e => exact h.elim

omit hd in
/-- A choice asks about its alternatives at the input. -/
lemma confined_of_ofChoices {choices : List (Pattern ρ)}
    (hp : ∀ p ∈ choices, p.RegularOver good) (hi : base.HasTail input) {best : Option Rejection}
    (h : (ofChoices input choices best).Asks definitions g) : g.Confined good base := by
  induction choices generalizing best with
  | nil => exact h.elim
  | cons p ps ih =>
    rw [List.forall_mem_cons] at hp
    rcases h with rfl | ⟨o, _, h⟩
    · exact ⟨hp.1, hi⟩
    · cases o with
      | matched consumed remainder => exact h.elim
      | rejected e => exact ih hp.2 h

/-- A repetition asks about its body, and goes on, at tails of the input. -/
lemma confined_of_ofRepeating {body : Pattern ρ} {min count : Nat} {max : Option Nat}
    (hb : body.RegularOver good) (hr : base.HasTail rest)
    (h : (ofRepeating body min max input rest count).Asks definitions g) :
    g.Confined good base := by
  rw [ofRepeating] at h
  split at h
  · rcases h with rfl | ⟨o, yields, h⟩
    · exact ⟨hb, hr⟩
    · cases o with
      | matched consumed remainder =>
        simp only at h
        split at h
        · exact h.elim
        · cases h
          exact ⟨hb, hr.trans (hb.hasTail hd yields)⟩
      | rejected e => exact h.elim
  · exact h.elim

/-- A scan asks about stop and body, and goes on, at tails of the input. -/
lemma confined_of_ofScanning {stop body : Pattern ρ} (hs : stop.RegularOver good)
    (hb : body.RegularOver good) (hr : base.HasTail rest)
    (h : (ofScanning stop body input rest).Asks definitions g) : g.Confined good base := by
  rcases h with rfl | ⟨o, _, h⟩
  · exact ⟨hs, hr⟩
  · cases o with
    | matched consumed remainder => exact h.elim
    | rejected e =>
      simp only at h
      split at h
      · exact h.elim
      · rcases h with rfl | ⟨o, yields, h⟩
        · exact ⟨hb, hr⟩
        · cases o with
          | matched consumed remainder =>
            simp only at h
            split at h
            · exact h.elim
            · cases h
              exact ⟨hs, hb, hr.trans (hb.hasTail hd yields)⟩
          | rejected e => exact h.elim

/-- A series asks about element and separator, and goes on, at tails of the input. -/
lemma confined_of_ofListing {element separator : Pattern ρ} {config : Series.Config}
    {count : Nat} (he : element.RegularOver good) (hs : separator.RegularOver good)
    (hr : base.HasTail rest)
    (h : (ofListing element separator config input rest count).Asks definitions g) :
    g.Confined good base := by
  rw [ofListing] at h
  split at h
  · rcases h with rfl | ⟨o, yields, h⟩
    · exact ⟨hs, hr⟩
    · cases o with
      | rejected e => exact h.elim
      | matched consumed after =>
        have tail := hr.trans (hs.hasTail hd yields)
        rcases h with rfl | ⟨o, yields, h⟩
        · exact ⟨he, tail⟩
        · cases o with
          | matched consumed remainder =>
            simp only at h
            split at h
            · exact h.elim
            · cases h
              exact ⟨he, hs, tail.trans (he.hasTail hd yields)⟩
          | rejected e =>
            simp only at h
            split at h
            · exact h.elim
            · split at h <;> exact h.elim
  · exact h.elim

/-- A regular pattern asks about regular patterns at tails of its input. -/
lemma confined_of_ofPattern {p : Pattern ρ} (hp : p.RegularOver good) (hi : base.HasTail input)
    (h : (p.plan input).Asks definitions g) : g.Confined good base := by
  cases hp with
  | satisfy accepts => exact h.elim
  | literal text => exact h.elim
  | endOfInput => exact h.elim
  | concat hp => exact confined_of_ofParts hd hp hi h
  | firstOf hp => exact confined_of_ofChoices hp hi h
  | optional hb =>
    rcases h with rfl | ⟨o, _, h⟩
    · exact ⟨hb, hi⟩
    · cases o <;> exact h.elim
  | implies hc hq =>
    rcases h with rfl | ⟨o, yields, h⟩
    · exact ⟨hc, hi⟩
    · cases o with
      | rejected e => exact h.elim
      | matched consumed remainder =>
        rcases h with rfl | ⟨o, _, h⟩
        · exact ⟨hq, hi.trans (hc.hasTail hd yields)⟩
        · cases o <;> exact h.elim
  | repeated min max hb =>
    cases h
    exact ⟨hb, hi⟩
  | scan hs hb =>
    cases h
    exact ⟨hs, hb, hi⟩
  | series config he hs =>
    rw [Pattern.plan] at h
    split at h
    · exact h.elim
    · rcases h with rfl | ⟨o, yields, h⟩
      · exact ⟨he, hi⟩
      · cases o with
        | matched consumed remainder =>
          cases h
          exact ⟨he, hs, hi.trans (he.hasTail hd yields)⟩
        | rejected e => exact h.elim
  | label message hb =>
    rcases h with rfl | ⟨_, _, h⟩
    · exact ⟨hb, hi⟩
    · exact h.elim
  | context name hb =>
    rcases h with rfl | ⟨_, _, h⟩
    · exact ⟨hb, hi⟩
    · exact h.elim
  | refer hr =>
    cases h
    exact ⟨hr, hi⟩
  | cut place => exact h.elim

end Plan

namespace Goal

/-- What a confined goal asks for is confined as well, unless it has to look up a rule. -/
lemma Confined.asks (hd : ∀ rule p, definitions rule = .defined p → p.Regular)
    (hg : g.Confined good base) (none : g.opens = []) {g' : Goal ρ}
    (h : (g.plan definitions).Asks definitions g') : g'.Confined good base := by
  cases g with
  | apply p input => exact Plan.confined_of_ofPattern hd hg.1 hg.2 h
  | resolve rule input => cases none
  | repeating body min max input rest count => exact Plan.confined_of_ofRepeating hd hg.1 hg.2 h
  | scanning stop body input rest =>
    exact Plan.confined_of_ofScanning hd hg.1 hg.2.1 hg.2.2 h
  | listing element separator config input rest count =>
    exact Plan.confined_of_ofListing hd hg.1 hg.2.1 hg.2.2 h

/-- A regular pattern nests as the rules do that it refers to, at all tails of its input. -/
theorem nestsWithin_of_regular (hd : ∀ rule p, definitions rule = .defined p → p.Regular)
    {p : Pattern ρ} (hp : p.RegularOver good)
    (h : ∀ rule rest, good rule → input.HasTail rest →
      (resolve rule rest).NestsWithin definitions n) :
    (apply p input).NestsWithin definitions n := by
  have step (g : Goal ρ) (hg : g.Confined good input ∧ g.opens = []) (g' : Goal ρ)
      (asks : (g.plan definitions).Asks definitions g') :
      (g'.Confined good input ∧ g'.opens = []) ∨ g'.NestsWithin definitions n := by
    have confined := hg.1.asks hd hg.2 asks
    cases g' with
    | resolve rule rest => exact .inr (h rule rest confined.1 confined.2)
    | _ => exact .inl ⟨confined, rfl⟩
  exact nestsWithin_of_closed (fun g hg => hg.2) step ⟨⟨hp, .refl input⟩, rfl⟩

end Goal

end Recognizer
