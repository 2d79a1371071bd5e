import Mathlib.Data.List.Forall2
import Recognizer.Proofs.Pattern.Loops

/-!
# Wording decides nothing

Labels, contexts and the rejections of patterns that reject everything say why an input was not
accepted. Two patterns are alike if they differ in these only. Alike patterns have alike outcomes
(`Goal.Yields.alike`): the same match, or a rejection each. Offsets decide which of the rejections
of a choice is kept, so they are followed through all plans: where the patterns reject at the same
offsets themselves, the outcomes do.
-/

namespace Recognizer

variable {ρ σ : Type} {offsets : Prop} {rel : ρ → σ → Prop}

/-- The same match, or two rejections, which lie at the same offset if `offsets` is asked for. -/
inductive Outcome.Alike (offsets : Prop) : Outcome → Outcome → Prop where
  | matched (consumed remainder : Slice) :
    Alike offsets (.matched consumed remainder) (.matched consumed remainder)
  | rejected {e e' : Rejection} : (offsets → e.offset = e'.offset) →
    Alike offsets (.rejected e) (.rejected e')

/-- The same pattern up to labels, contexts and what is said by patterns that reject everything,
with alike references. What these say may depend on the input; if `offsets` is asked for, they
reject every input at the same offset. -/
inductive Pattern.Alike (offsets : Prop) (rel : ρ → σ → Prop) : Pattern ρ → Pattern σ → Prop where
  | satisfy (accepts : Char → Bool) : Alike offsets rel (.satisfy accepts) (.satisfy accepts)
  | literal (text : String) : Alike offsets rel (.literal text) (.literal text)
  | endOfInput : Alike offsets rel .endOfInput .endOfInput
  | custom (answer : Slice → Outcome) : Alike offsets rel (.custom answer) (.custom answer)
  | reject {why why' : Slice → Rejection} :
    (offsets → ∀ input, (why input).offset = (why' input).offset) →
    Alike offsets rel (.custom fun input => .rejected (why input))
      (.custom fun input => .rejected (why' input))
  | concat {ps : List (Pattern ρ)} {qs : List (Pattern σ)} : ps.length = qs.length →
    (∀ pq ∈ ps.zip qs, Alike offsets rel pq.1 pq.2) → Alike offsets rel (.concat ps) (.concat qs)
  | firstOf {ps : List (Pattern ρ)} {qs : List (Pattern σ)} : ps.length = qs.length →
    (∀ pq ∈ ps.zip qs, Alike offsets rel pq.1 pq.2) →
    Alike offsets rel (.firstOf ps) (.firstOf qs)
  | optional {p : Pattern ρ} {q : Pattern σ} : Alike offsets rel p q →
    Alike offsets rel (.optional p) (.optional q)
  | implies {p p' : Pattern ρ} {q q' : Pattern σ} : Alike offsets rel p q →
    Alike offsets rel p' q' → Alike offsets rel (.implies p p') (.implies q q')
  | repeated {p : Pattern ρ} {q : Pattern σ} (min : Nat) (max : Option Nat) :
    Alike offsets rel p q → Alike offsets rel (.repeated p min max) (.repeated q min max)
  | scan {p p' : Pattern ρ} {q q' : Pattern σ} : Alike offsets rel p q →
    Alike offsets rel p' q' → Alike offsets rel (.scan p p') (.scan q q')
  | series {p p' : Pattern ρ} {q q' : Pattern σ} (config : Series.Config) :
    Alike offsets rel p q → Alike offsets rel p' q' →
    Alike offsets rel (.series p p' config) (.series q q' config)
  | refer {rule : ρ} {rule' : σ} : rel rule rule' →
    Alike offsets rel (.refer rule) (.refer rule')
  | label_left {p : Pattern ρ} {q : Pattern σ} (message : String) : Alike offsets rel p q →
    Alike offsets rel (.label p message) q
  | label_right {p : Pattern ρ} {q : Pattern σ} (message : String) : Alike offsets rel p q →
    Alike offsets rel p (.label q message)
  | context_left {p : Pattern ρ} {q : Pattern σ} (name : String) : Alike offsets rel p q →
    Alike offsets rel (.context p name) q
  | context_right {p : Pattern ρ} {q : Pattern σ} (name : String) : Alike offsets rel p q →
    Alike offsets rel p (.context q name)

/-- Alike definitions, or none on either side. -/
inductive Resolution.Alike (offsets : Prop) (rel : ρ → σ → Prop) :
    Resolution ρ → Resolution σ → Prop where
  | defined {p : Pattern ρ} {q : Pattern σ} : p.Alike offsets rel q →
    Alike offsets rel (.defined p) (.defined q)
  | undefined (name name' : String) : Alike offsets rel (.undefined name) (.undefined name')
  | dropped : Alike offsets rel .dropped .dropped

/-- The same question about alike patterns. -/
inductive Goal.Alike (offsets : Prop) (rel : ρ → σ → Prop) : Goal ρ → Goal σ → Prop where
  | apply {p : Pattern ρ} {q : Pattern σ} (input : Slice) : p.Alike offsets rel q →
    Alike offsets rel (.apply p input) (.apply q input)
  | resolve {rule : ρ} {rule' : σ} (input : Slice) : rel rule rule' →
    Alike offsets rel (.resolve rule input) (.resolve rule' input)
  | repeating {p : Pattern ρ} {q : Pattern σ} (min : Nat) (max : Option Nat) (input rest : Slice)
      (count : Nat) : p.Alike offsets rel q →
    Alike offsets rel (.repeating p min max input rest count)
      (.repeating q min max input rest count)
  | scanning {p p' : Pattern ρ} {q q' : Pattern σ} (input rest : Slice) :
    p.Alike offsets rel q → p'.Alike offsets rel q' →
    Alike offsets rel (.scanning p p' input rest) (.scanning q q' input rest)
  | listing {p p' : Pattern ρ} {q q' : Pattern σ} (config : Series.Config) (input rest : Slice)
      (count : Nat) : p.Alike offsets rel q → p'.Alike offsets rel q' →
    Alike offsets rel (.listing p p' config input rest count)
      (.listing q q' config input rest count)

/-- Plans that go the same way. -/
inductive Plan.Alike (offsets : Prop) (rel : ρ → σ → Prop) : Plan ρ → Plan σ → Prop where
  | done {o o' : Outcome} : o.Alike offsets o' → Alike offsets rel (.done o) (.done o')
  | become {g : Goal ρ} {g' : Goal σ} : g.Alike offsets rel g' →
    Alike offsets rel (.become g) (.become g')
  | await {g : Goal ρ} {g' : Goal σ} {next : Outcome → Plan ρ} {next' : Outcome → Plan σ} :
    g.Alike offsets rel g' →
    (∀ o o', o.Alike offsets o' → Alike offsets rel (next o) (next' o')) →
    Alike offsets rel (.await g next) (.await g' next')

/-- A label changes no offset. -/
@[simp] lemma Rejection.offset_labelled (e : Rejection) (message : String) :
    (e.labelled message).offset = e.offset := by
  rw [labelled]
  split
  · rfl
  · rfl

namespace Outcome

namespace Alike

variable {o o' : Outcome}

/-- An outcome is like itself. -/
lemma refl (o : Outcome) : o.Alike offsets o := by
  cases o with
  | matched consumed remainder => exact .matched consumed remainder
  | rejected e => exact .rejected fun _ => rfl

/-- Outcomes are alike from either side. -/
lemma symm (h : o.Alike offsets o') : o'.Alike offsets o := by
  cases h with
  | matched consumed remainder => exact .matched consumed remainder
  | rejected h => exact .rejected fun ho => (h ho).symm

/-- A rejection may be worded anew on one side. -/
lemma reword {f : Rejection → Rejection} (hf : ∀ e, (f e).offset = e.offset)
    (h : o.Alike offsets o') : (o.mapRejection f).Alike offsets o' := by
  cases h with
  | matched consumed remainder => exact .matched consumed remainder
  | rejected h => exact .rejected fun ho => (hf _).trans (h ho)

/-- Offsets that are the same stay so when counted from elsewhere. -/
lemma shifted {e e' : Rejection} (h : offsets → e.offset = e'.offset) (n : Nat) :
    (Outcome.rejected (e.shifted n)).Alike offsets (.rejected (e'.shifted n)) :=
  .rejected fun ho => congrArg (· + n) (h ho)

/-- Choices that reject as far reject alike. -/
lemma ofFurthest {best best' : Option Rejection}
    (h : offsets → Rejection.reach best = Rejection.reach best') :
    (Outcome.ofFurthest best).Alike offsets (Outcome.ofFurthest best') := by
  obtain ⟨e, he, offset⟩ := exists_ofFurthest best
  obtain ⟨e', he', offset'⟩ := exists_ofFurthest best'
  rw [he, he']
  exact .rejected fun ho => offset.trans ((h ho).trans offset'.symm)

/-- Repetitions that end by alike rejections end alike. -/
lemma ofRepeated {e e' : Rejection} (h : offsets → e.offset = e'.offset) (min : Nat)
    (input rest : Slice) (count : Nat) :
    (Outcome.ofRepeated min input rest count (some e)).Alike offsets
      (Outcome.ofRepeated min input rest count (some e')) := by
  rw [Outcome.ofRepeated.eq_def, Outcome.ofRepeated.eq_def]
  split
  · exact refl _
  · exact shifted h _

end Alike

end Outcome

namespace Plan

/-- Plans that go the same way reach alike outcomes. -/
lemma Alike.reaches {answers : Goal ρ → Outcome → Prop} {answers' : Goal σ → Outcome → Prop}
    (ha : ∀ g g' o, g.Alike offsets rel g' → answers g o →
      ∃ o', answers' g' o' ∧ o.Alike offsets o')
    {plan : Plan ρ} {plan' : Plan σ} (h : plan.Alike offsets rel plan') {o : Outcome}
    (ho : plan.Reaches answers o) : ∃ o', plan'.Reaches answers' o' ∧ o.Alike offsets o' := by
  induction h with
  | done h =>
    cases ho
    exact ⟨_, rfl, h⟩
  | become h => exact ha _ _ _ h ho
  | await h _ ih =>
    obtain ⟨o₁, hg, hn⟩ := ho
    obtain ⟨o₁', hg', alike₁⟩ := ha _ _ _ h hg
    obtain ⟨o', hn', alike'⟩ := ih o₁ o₁' alike₁ hn
    exact ⟨o', ⟨o₁', hg', hn'⟩, alike'⟩

variable {input rest : Slice} {p p' : Pattern ρ} {q q' : Pattern σ}

/-- Two plans that have reached the same outcome are alike. -/
lemma alike_done (o : Outcome) : (done o : Plan ρ).Alike offsets rel (done o : Plan σ) :=
  .done (.refl o)

/-- Sequences of alike parts go the same way. -/
lemma alike_ofParts {ps : List (Pattern ρ)} {qs : List (Pattern σ)}
    (h : List.Forall₂ (Pattern.Alike offsets rel) ps qs) :
    (ofParts input ps rest).Alike offsets rel (ofParts input qs rest) := by
  induction h generalizing rest with
  | nil => exact alike_done _
  | cons h _ ih =>
    refine .await (.apply rest h) fun o o' ho => ?_
    cases ho with
    | matched consumed remainder => exact ih
    | rejected he => exact .done (.shifted he _)

/-- Choices from alike patterns go the same way. -/
lemma alike_ofChoices {ps : List (Pattern ρ)} {qs : List (Pattern σ)}
    (h : List.Forall₂ (Pattern.Alike offsets rel) ps qs) {best best' : Option Rejection}
    (hb : offsets → Rejection.reach best = Rejection.reach best') :
    (ofChoices input ps best).Alike offsets rel (ofChoices input qs best') := by
  induction h generalizing best best' with
  | nil => exact .done (.ofFurthest hb)
  | cons h _ ih =>
    refine .await (.apply input h) fun o o' ho => ?_
    cases ho with
    | matched consumed remainder => exact alike_done _
    | rejected he =>
      refine ih fun ho => ?_
      show (Rejection.further _ _).offset = (Rejection.further _ _).offset
      rw [Rejection.offset_further, Rejection.offset_further, hb ho, he ho]

/-- Repetitions of alike bodies go the same way. -/
lemma alike_ofRepeating {min count : Nat} {max : Option Nat} (h : p.Alike offsets rel q) :
    (ofRepeating p min max input rest count).Alike offsets rel
      (ofRepeating q min max input rest count) := by
  rw [ofRepeating, ofRepeating]
  split
  · refine .await (.apply rest h) fun o o' ho => ?_
    cases ho with
    | matched consumed remainder =>
      simp only
      split
      · exact alike_done _
      · exact .become (.repeating _ _ _ _ _ h)
    | rejected he => exact .done (.ofRepeated he ..)
  · exact alike_done _

/-- Scans by alike patterns go the same way. -/
lemma alike_ofScanning (h : p.Alike offsets rel q) (h' : p'.Alike offsets rel q') :
    (ofScanning p p' input rest).Alike offsets rel (ofScanning q q' input rest) := by
  refine .await (.apply rest h) fun o o' ho => ?_
  cases ho with
  | matched consumed remainder => exact alike_done _
  | rejected he =>
    simp only
    split
    · exact alike_done _
    · refine .await (.apply rest h') fun o o' ho => ?_
      cases ho with
      | matched consumed remainder =>
        simp only
        split
        · exact alike_done _
        · exact .become (.scanning _ _ h h')
      | rejected he => exact .done (.shifted he _)

/-- Series under way from alike patterns go the same way. -/
lemma alike_ofListing {config : Series.Config} {count : Nat} (h : p.Alike offsets rel q)
    (h' : p'.Alike offsets rel q') :
    (ofListing p p' config input rest count).Alike offsets rel
      (ofListing q q' config input rest count) := by
  rw [ofListing, ofListing]
  split
  · refine .await (.apply rest h') fun o o' ho => ?_
    cases ho with
    | rejected he => exact alike_done _
    | matched consumed after =>
      refine .await (.apply after h) fun o o' ho => ?_
      cases ho with
      | matched consumed remainder =>
        simp only
        split
        · exact alike_done _
        · exact .become (.listing _ _ _ _ h h')
      | rejected he =>
        simp only
        split
        · exact alike_done _
        · split
          · exact .done (.shifted he _)
          · exact alike_done _
  · exact alike_done _

/-- Series from alike patterns start the same way. -/
lemma alike_ofSeries {config : Series.Config} (h : p.Alike offsets rel q)
    (h' : p'.Alike offsets rel q') :
    (Pattern.plan input (.series p p' config)).Alike offsets rel
      (Pattern.plan input (.series q q' config)) := by
  rw [Pattern.plan, Pattern.plan]
  split
  · exact alike_done _
  · refine .await (.apply input h) fun o o' ho => ?_
    cases ho with
    | matched consumed remainder => exact .become (.listing _ _ _ _ h h')
    | rejected he =>
      simp only
      split
      · exact alike_done _
      · exact .done (.rejected he)

end Plan

variable {definitions : ρ → Resolution ρ} {definitions' : σ → Resolution σ}

/-- Every goal that is alike has an alike outcome. -/
def Goal.Matches (offsets : Prop) (rel : ρ → σ → Prop) (definitions' : σ → Resolution σ)
    (g : Goal ρ) (o : Outcome) : Prop :=
  ∀ g' : Goal σ, g.Alike offsets rel g' → ∃ o', g'.Yields definitions' o' ∧ o.Alike offsets o'

/-- What one of two alike plans reaches, the goal of the other yields. -/
lemma Plan.Alike.matches {g' : Goal σ} {plan : Plan ρ}
    (h : plan.Alike offsets rel (g'.plan definitions')) {o : Outcome}
    (ho : plan.Reaches (Goal.Matches offsets rel definitions') o) :
    ∃ o', g'.Yields definitions' o' ∧ o.Alike offsets o' := by
  obtain ⟨o', reaches, alike'⟩ := h.reaches (fun _ g' _ hg hm => hm g' hg) ho
  exact ⟨o', Goal.yields_iff.2 reaches, alike'⟩

/-- A pattern that only words the rejections of another one anew has an outcome where that does. -/
lemma Goal.exists_yields_reworded {p q : Pattern σ} {input : Slice} {f : Rejection → Rejection}
    (hf : ∀ e, (f e).offset = e.offset)
    (hp : p.plan input = .await (.apply q input) fun o => .done (o.mapRejection f)) {o : Outcome}
    (h : ∃ o', (Goal.apply q input).Yields definitions' o' ∧ o.Alike offsets o') :
    ∃ o', (Goal.apply p input).Yields definitions' o' ∧ o.Alike offsets o' := by
  obtain ⟨o', yields, alike'⟩ := h
  refine ⟨o'.mapRejection f, Goal.yields_iff.2 ?_, (alike'.symm.reword hf).symm⟩
  show (p.plan input).Reaches _ _
  rw [hp]
  exact ⟨o', yields, rfl⟩

/-- And so it is for alike patterns. -/
lemma Pattern.Alike.matches {p : Pattern ρ} {q : Pattern σ} (h : p.Alike offsets rel q)
    {input : Slice} {o : Outcome}
    (ho : (p.plan input).Reaches (Goal.Matches offsets rel definitions') o) :
    ∃ o', (Goal.apply q input).Yields definitions' o' ∧ o.Alike offsets o' := by
  -- The induction is for wording on the right; all else is left to the outcomes of the parts.
  induction h with
  | satisfy accepts => exact Plan.Alike.matches (Plan.alike_done _) ho
  | literal text => exact Plan.Alike.matches (Plan.alike_done _) ho
  | endOfInput => exact Plan.Alike.matches (Plan.alike_done _) ho
  | custom answer => exact Plan.Alike.matches (Plan.alike_done _) ho
  | reject he => exact Plan.Alike.matches (.done (.rejected fun ho => he ho input)) ho
  | concat len h _ =>
    exact Plan.Alike.matches (Plan.alike_ofParts (List.forall₂_iff_zip.2 ⟨len, h _⟩)) ho
  | firstOf len h _ =>
    refine Plan.Alike.matches (Plan.alike_ofChoices (List.forall₂_iff_zip.2 ⟨len, h _⟩) ?_) ho
    exact fun _ => rfl
  | optional h _ =>
    refine Plan.Alike.matches (.await (.apply input h) fun o o' ho => ?_) ho
    cases ho with
    | matched consumed remainder => exact Plan.alike_done _
    | rejected he => exact Plan.alike_done _
  | implies h h' _ _ =>
    refine Plan.Alike.matches (.await (.apply input h) fun o o' ho => ?_) ho
    cases ho with
    | rejected he => exact Plan.alike_done _
    | matched consumed remainder =>
      refine .await (.apply remainder h') fun o o' ho => ?_
      cases ho with
      | matched consumed rest => exact Plan.alike_done _
      | rejected he => exact .done (.shifted he _)
  | repeated min max h _ => exact Plan.Alike.matches (.become (.repeating _ _ _ _ _ h)) ho
  | scan h h' _ _ => exact Plan.Alike.matches (.become (.scanning _ _ h h')) ho
  | series config h h' _ _ => exact Plan.Alike.matches (Plan.alike_ofSeries h h') ho
  | refer hr => exact Plan.Alike.matches (.become (.resolve input hr)) ho
  | label_left message h _ =>
    obtain ⟨o₁, hm, rfl⟩ := ho
    obtain ⟨o', yields, alike'⟩ := hm _ (.apply input h)
    exact ⟨o', yields, alike'.reword fun e => e.offset_labelled message⟩
  | context_left name h _ =>
    obtain ⟨o₁, hm, rfl⟩ := ho
    obtain ⟨o', yields, alike'⟩ := hm _ (.apply input h)
    exact ⟨o', yields, alike'.reword fun _ => rfl⟩
  | label_right message _ ih =>
    exact Goal.exists_yields_reworded (fun e => e.offset_labelled message) rfl (ih ho)
  | context_right name _ ih =>
    exact Goal.exists_yields_reworded (f := (·.within name)) (fun _ => rfl) rfl (ih ho)

/-- Alike goals have alike outcomes, if rules have alike definitions. -/
theorem Goal.Yields.alike
    (hd : ∀ rule rule', rel rule rule' →
      (definitions rule).Alike offsets rel (definitions' rule'))
    {g : Goal ρ} {g' : Goal σ} (hg : g.Alike offsets rel g') {o : Outcome}
    (h : g.Yields definitions o) : ∃ o', g'.Yields definitions' o' ∧ o.Alike offsets o' := by
  refine (Goal.Yields.of_closed ?_ h : Goal.Matches offsets rel definitions' g o) g' hg
  intro g o ho g' hg
  cases hg with
  | apply input h => exact h.matches ho
  | repeating min max input rest count h =>
    exact Plan.Alike.matches (Plan.alike_ofRepeating h) ho
  | scanning input rest h h' => exact Plan.Alike.matches (Plan.alike_ofScanning h h') ho
  | listing config input rest count h h' =>
    exact Plan.Alike.matches (Plan.alike_ofListing h h') ho
  | @resolve rule rule' input hr =>
    refine Plan.Alike.matches ?_ ho
    rw [Goal.plan, Goal.plan]
    have h := hd rule rule' hr
    generalize definitions rule = r at h ⊢
    generalize definitions' rule' = r' at h ⊢
    cases h with
    | defined h => exact .become (.apply input h)
    | undefined name name' => exact .done (.rejected fun _ => rfl)
    | dropped => exact Plan.alike_done _

end Recognizer
