import Recognizer.Proofs.Pattern.Yields

/-!
# The rounds of a loop

What a sequence or a loop asks its parts, step by step, each on what the step before it left. A loop
that has done some rounds still has the answer that it had before them (`Rounds.repeating`,
`Skips.scanning`, `Further.listing`), and every answer of a loop is told by its rounds and by how
they end (`Goal.Yields.traces`). Nothing is assumed of the parts: what they leave need not be cut
from the input.
-/

namespace Recognizer

variable {ρ : Type} {definitions : ρ → Resolution ρ} {input rest rest' s s' : Slice} {o : Outcome}

/-- The patterns match one after the other, the last one leaving `s'`. -/
inductive Leads (definitions : ρ → Resolution ρ) : List (Pattern ρ) → Slice → Slice → Prop where
  | nil (s : Slice) : Leads definitions [] s s
  | cons {p : Pattern ρ} {ps : List (Pattern ρ)} {s c s' s'' : Slice} :
    (Goal.apply p s).Yields definitions (.matched c s') → Leads definitions ps s' s'' →
    Leads definitions (p :: ps) s s''

/-- The body matches `n` times, each time consuming something. -/
inductive Rounds (definitions : ρ → Resolution ρ) (body : Pattern ρ) :
    Nat → Slice → Slice → Prop where
  | zero (s : Slice) : Rounds definitions body 0 s s
  | succ {n : Nat} {s c s' s'' : Slice} :
    (Goal.apply body s).Yields definitions (.matched c s') → c.isEmpty = false →
    Rounds definitions body n s' s'' → Rounds definitions body (n + 1) s s''

/-- The body matches again and again where `stop` rejects, each time consuming something. -/
inductive Skips (definitions : ρ → Resolution ρ) (stop body : Pattern ρ) :
    Slice → Slice → Prop where
  | here (s : Slice) : Skips definitions stop body s s
  | next {s c s' s'' : Slice} {e : Rejection} :
    (Goal.apply stop s).Yields definitions (.rejected e) → s.isEmpty = false →
    (Goal.apply body s).Yields definitions (.matched c s') → c.isEmpty = false →
    Skips definitions stop body s' s'' → Skips definitions stop body s s''

/-- `n` elements match, each behind a separator, and what a separator and its element leave is not
as long as what there was. The pieces are what they consume. -/
inductive Further (definitions : ρ → Resolution ρ) (element separator : Pattern ρ) :
    Nat → List Slice → Slice → Slice → Prop where
  | zero (s : Slice) : Further definitions element separator 0 [] s s
  | succ {n : Nat} {pieces : List Slice} {s c s' c' s'' s''' : Slice} :
    (Goal.apply separator s).Yields definitions (.matched c s') →
    (Goal.apply element s').Yields definitions (.matched c' s'') → s''.size ≠ s.size →
    Further definitions element separator n pieces s'' s''' →
    Further definitions element separator (n + 1) (c :: c' :: pieces) s s'''

/-- `n` elements match with separators between them. -/
inductive Elements (definitions : ρ → Resolution ρ) (element separator : Pattern ρ) :
    Nat → List Slice → Slice → Slice → Prop where
  | nil (s : Slice) : Elements definitions element separator 0 [] s s
  | cons {n : Nat} {pieces : List Slice} {s c s' s'' : Slice} :
    (Goal.apply element s).Yields definitions (.matched c s') →
    Further definitions element separator n pieces s' s'' →
    Elements definitions element separator (n + 1) (c :: pieces) s s''

/-- A repetition with `count` matches goes no further than `s`. -/
inductive EndsRounds (definitions : ρ → Resolution ρ) (body : Pattern ρ) (max : Option Nat)
    (count : Nat) (s : Slice) : Prop where
  | full : belowMax max count = false → EndsRounds definitions body max count s
  | rejected {e : Rejection} : (Goal.apply body s).Yields definitions (.rejected e) →
    EndsRounds definitions body max count s
  | idle {c s' : Slice} : (Goal.apply body s).Yields definitions (.matched c s') →
    c.isEmpty = true → EndsRounds definitions body max count s

/-- A series with `count` elements goes no further than `s`. -/
inductive EndsElements (definitions : ρ → Resolution ρ) (element separator : Pattern ρ)
    (max : Option Nat) (count : Nat) (s : Slice) : Prop where
  | full : belowMax max count = false → EndsElements definitions element separator max count s
  | rejected {e : Rejection} : (Goal.apply separator s).Yields definitions (.rejected e) →
    EndsElements definitions element separator max count s
  /-- A separator and an element leave as much as there was. -/
  | idle {c s' c' s'' : Slice} : (Goal.apply separator s).Yields definitions (.matched c s') →
    (Goal.apply element s').Yields definitions (.matched c' s'') → s''.size = s.size →
    EndsElements definitions element separator max count s
  /-- A separator leaves as much as there was, and no element is behind it. -/
  | bare {c s' : Slice} {e : Rejection} :
    (Goal.apply separator s).Yields definitions (.matched c s') →
    (Goal.apply element s').Yields definitions (.rejected e) → s'.size = s.size →
    EndsElements definitions element separator max count s

/-- A separator behind the elements, with none behind it, leaves `s'`. -/
structure Dangles (definitions : ρ → Resolution ρ) (element separator : Pattern ρ) (c s s' : Slice)
    (e : Rejection) : Prop where
  separates : (Goal.apply separator s).Yields definitions (.matched c s')
  other : s'.size ≠ s.size
  rejects : (Goal.apply element s').Yields definitions (.rejected e)

/-- There is room if the count is below the bound, if any. -/
lemma belowMax_eq_true_iff {max : Option Nat} {count : Nat} :
    belowMax max count = true ↔ ∀ m ∈ max, count < m := by
  cases max with
  | none => simp [belowMax]
  | some m => simp [belowMax]

/-- There is room for one if there is room for more. -/
lemma belowMax_of_succ_le {max : Option Nat} {count n : Nat}
    (room : ∀ m ∈ max, count + (n + 1) ≤ m) : belowMax max count = true := by
  refine belowMax_eq_true_iff.2 fun m hm => ?_
  have := room m hm
  omega

/-- A sequence that has been followed to its end is rebuilt from what is left. -/
lemma Leads.eq_fromRemainder {parts : List (Pattern ρ)} (h : Leads definitions parts s s')
    (ho : (Plan.ofParts input parts s).Reaches (Goal.Yields definitions) o) :
    o = .fromRemainder input s' := by
  induction h with
  | nil s => exact ho.symm
  | cons yields _ ih =>
    obtain ⟨o', yields', ho⟩ := ho
    cases yields.unique yields'
    exact ih ho

section Repeating

variable {body : Pattern ρ} {min n count : Nat} {max : Option Nat}

/-- A repetition goes on behind rounds that it has gone through. -/
lemma Rounds.repeating (h : Rounds definitions body n s s') (room : ∀ m ∈ max, count + n ≤ m)
    (ho : (Goal.repeating body min max input s count).Yields definitions o) :
    (Goal.repeating body min max input s' (count + n)).Yields definitions o := by
  induction h generalizing count with
  | zero s => exact ho
  | @succ n s c s' s'' yields nonempty _ ih =>
    rw [Goal.yields_iff, Goal.plan, Plan.ofRepeating, if_pos (belowMax_of_succ_le room)] at ho
    obtain ⟨o', yields', ho⟩ := ho
    cases yields.unique yields'
    simp only [nonempty] at ho
    have sum : count + (n + 1) = count + 1 + n := by omega
    rw [sum] at room ⊢
    exact ih room ho

/-- Where rounds end, so does the repetition. -/
lemma EndsRounds.eq_ofRepeated (h : EndsRounds definitions body max count s)
    (ho : (Goal.repeating body min max input s count).Yields definitions o) :
    ∃ stoppedBy, o = .ofRepeated min input s count stoppedBy := by
  rw [Goal.yields_iff, Goal.plan, Plan.ofRepeating] at ho
  split at ho
  · next below =>
    obtain ⟨o', yields', ho⟩ := ho
    cases h with
    | full full => cases below.symm.trans full
    | rejected yields =>
      cases yields.unique yields'
      exact ⟨_, ho.symm⟩
    | idle yields empty =>
      cases yields.unique yields'
      simp only [empty] at ho
      exact ⟨_, ho.symm⟩
  · exact ⟨_, ho.symm⟩

end Repeating

section Scanning

variable {stop body : Pattern ρ}

/-- A scan goes on behind what it has skipped. -/
lemma Skips.scanning (h : Skips definitions stop body s s')
    (ho : (Goal.scanning stop body input s).Yields definitions o) :
    (Goal.scanning stop body input s').Yields definitions o := by
  induction h with
  | here s => exact ho
  | next rejects more yields nonempty _ ih =>
    obtain ⟨o', rejects', ho⟩ := Goal.yields_iff.1 ho
    cases rejects.unique rejects'
    simp only [more] at ho
    obtain ⟨o', yields', ho⟩ := ho
    cases yields.unique yields'
    simp only [nonempty] at ho
    exact ih ho

end Scanning

section Listing

variable {element separator : Pattern ρ} {config : Series.Config} {n count : Nat}
  {pieces : List Slice}

/-- A series goes on behind further elements. -/
lemma Further.listing (h : Further definitions element separator n pieces s s')
    (room : ∀ m ∈ config.max, count + n ≤ m)
    (ho : (Goal.listing element separator config input s count).Yields definitions o) :
    (Goal.listing element separator config input s' (count + n)).Yields definitions o := by
  induction h generalizing count with
  | zero s => exact ho
  | @succ n pieces s c s' c' s'' s''' separates yields other _ ih =>
    rw [Goal.yields_iff, Goal.plan, Plan.ofListing, if_pos (belowMax_of_succ_le room)] at ho
    obtain ⟨o', separates', ho⟩ := ho
    cases separates.unique separates'
    obtain ⟨o', yields', ho⟩ := ho
    cases yields.unique yields'
    simp only [if_neg other] at ho
    have sum : count + (n + 1) = count + 1 + n := by omega
    rw [sum] at room ⊢
    exact ih room ho

/-- It goes on behind its first elements. -/
lemma Elements.listing (h : Elements definitions element separator (n + 1) pieces input s')
    (room : ∀ m ∈ config.max, n + 1 ≤ m)
    (ho : (Goal.apply (.series element separator config) input).Yields definitions o) :
    (Goal.listing element separator config input s' (n + 1)).Yields definitions o := by
  cases h with
  | cons yields further =>
    have full : config.max ≠ some 0 := fun full => absurd (room 0 full) (Nat.not_succ_le_zero n)
    rw [Goal.yields_iff, Goal.plan, Pattern.plan, if_neg full] at ho
    obtain ⟨o', yields', ho⟩ := ho
    cases yields.unique yields'
    rw [Nat.add_comm] at room ⊢
    exact further.listing room ho

/-- Where elements end, so does the series. -/
lemma EndsElements.eq_ofSeries (h : EndsElements definitions element separator config.max count s)
    (ho : (Goal.listing element separator config input s count).Yields definitions o) :
    o = .ofSeries config.min input s count := by
  rw [Goal.yields_iff, Goal.plan, Plan.ofListing] at ho
  split at ho
  · next below =>
    obtain ⟨o', separates', ho⟩ := ho
    cases h with
    | full full => cases below.symm.trans full
    | rejected yields =>
      cases yields.unique separates'
      exact ho.symm
    | idle separates yields same =>
      cases separates.unique separates'
      obtain ⟨o', yields', ho⟩ := ho
      cases yields.unique yields'
      simp only [if_pos same] at ho
      exact ho.symm
    | bare separates rejects same =>
      cases separates.unique separates'
      obtain ⟨o', rejects', ho⟩ := ho
      cases rejects.unique rejects'
      simp only [if_pos same] at ho
      exact ho.symm
  · exact ho.symm

/-- Where a dangling separator is allowed, the series ends behind it. -/
lemma Dangles.eq_ofSeries {c : Slice} {e : Rejection}
    (h : Dangles definitions element separator c s s' e) (room : ∀ m ∈ config.max, count < m)
    (allowed : config.trailing = .allowed)
    (ho : (Goal.listing element separator config input s count).Yields definitions o) :
    o = .ofSeries config.min input s' count := by
  obtain ⟨separates, other, rejects⟩ := h
  rw [Goal.yields_iff, Goal.plan, Plan.ofListing, if_pos (belowMax_eq_true_iff.2 room)] at ho
  obtain ⟨o', separates', ho⟩ := ho
  cases separates.unique separates'
  obtain ⟨o', rejects', ho⟩ := ho
  cases rejects.unique rejects'
  simp only [if_neg other, allowed] at ho
  exact ho.symm

end Listing

/-- How a series with `count` elements comes to its answer at `s`. -/
inductive Concludes (definitions : ρ → Resolution ρ) (element separator : Pattern ρ)
    (config : Series.Config) (input : Slice) (count : Nat) (s : Slice) : Outcome → Prop where
  | ended : EndsElements definitions element separator config.max count s →
    Concludes definitions element separator config input count s
      (.ofSeries config.min input s count)
  | trailing {c s' : Slice} {e : Rejection} : Dangles definitions element separator c s s' e →
    (∀ m ∈ config.max, count < m) → config.trailing = .allowed →
    Concludes definitions element separator config input count s
      (.ofSeries config.min input s' count)
  | refused {c s' : Slice} {e : Rejection} : Dangles definitions element separator c s s' e →
    (∀ m ∈ config.max, count < m) → config.trailing = .forbidden →
    Concludes definitions element separator config input count s
      (.rejected (e.shifted (input.progress s')))

/-- What a loop under way does until it comes to its answer. -/
def Goal.Traces (definitions : ρ → Resolution ρ) : Goal ρ → Outcome → Prop
  | apply _ _, _ | resolve _ _, _ => True
  | repeating body min max input rest count, o => ∃ n s, Rounds definitions body n rest s ∧
    ((∀ m ∈ max, count ≤ m) → ∀ m ∈ max, count + n ≤ m) ∧
    EndsRounds definitions body max (count + n) s ∧
    ∃ stoppedBy, o = .ofRepeated min input s (count + n) stoppedBy
  | scanning stop body input rest, o => ∃ s, Skips definitions stop body rest s ∧
    ((∃ c s', (Goal.apply stop s).Yields definitions (.matched c s') ∧
      o = .fromRemainder input s') ∨ ∃ e, o = .rejected e)
  | listing element separator config input rest count, o => ∃ n pieces s,
    Further definitions element separator n pieces rest s ∧
    ((∀ m ∈ config.max, count ≤ m) → ∀ m ∈ config.max, count + n ≤ m) ∧
    Concludes definitions element separator config input (count + n) s o

namespace Plan

/-- A sequence is followed to its end, or it rejects. -/
lemma ofParts_cases {parts : List (Pattern ρ)}
    (h : (ofParts input parts rest).Reaches (Goal.Yields definitions) o) :
    (∃ s, Leads definitions parts rest s ∧ o = .fromRemainder input s) ∨ ∃ e, o = .rejected e := by
  induction parts generalizing rest with
  | nil => exact .inl ⟨rest, .nil rest, h.symm⟩
  | cons p ps ih =>
    obtain ⟨o', yields, h⟩ := h
    cases o' with
    | rejected e => exact .inr ⟨_, h.symm⟩
    | matched c s' =>
      obtain ⟨s, leads, eq⟩ | rejected := ih h
      · exact .inl ⟨s, .cons yields leads, eq⟩
      · exact .inr rejected

/-- A repetition under way goes through one more round, or ends. -/
lemma traces_ofRepeating {body : Pattern ρ} {min count : Nat} {max : Option Nat}
    (h : (ofRepeating body min max input rest count).Reaches
      (fun g o => g.Yields definitions o ∧ g.Traces definitions o) o) :
    (Goal.repeating body min max input rest count).Traces definitions o := by
  rw [ofRepeating] at h
  split at h
  · next below =>
    obtain ⟨o', ⟨yields, _⟩, h⟩ := h
    cases o' with
    | rejected e => exact ⟨0, rest, .zero rest, id, .rejected yields, _, h.symm⟩
    | matched c s' =>
      simp only at h
      split at h
      · next empty => exact ⟨0, rest, .zero rest, id, .idle yields empty, _, h.symm⟩
      · next nonempty =>
        obtain ⟨n, s, rounds, bound, ends, stoppedBy, eq⟩ := h.2
        have sum : count + 1 + n = count + (n + 1) := by omega
        rw [sum] at bound ends eq
        have nonempty := Bool.eq_false_iff.2 nonempty
        exact ⟨n + 1, s, .succ yields nonempty rounds,
          fun _ => bound (belowMax_eq_true_iff.1 below), ends, stoppedBy, eq⟩
  · next full =>
    exact ⟨0, rest, .zero rest, id, .full (Bool.eq_false_iff.2 full), _, h.symm⟩

/-- A scan under way skips once more, or ends. -/
lemma traces_ofScanning {stop body : Pattern ρ}
    (h : (ofScanning stop body input rest).Reaches
      (fun g o => g.Yields definitions o ∧ g.Traces definitions o) o) :
    (Goal.scanning stop body input rest).Traces definitions o := by
  obtain ⟨o', ⟨stops, _⟩, h⟩ := h
  cases o' with
  | matched c s' => exact ⟨rest, .here rest, .inl ⟨c, s', stops, h.symm⟩⟩
  | rejected e =>
    simp only at h
    split at h
    · exact ⟨rest, .here rest, .inr ⟨_, h.symm⟩⟩
    · next more =>
      obtain ⟨o', ⟨yields, _⟩, h⟩ := h
      cases o' with
      | rejected e => exact ⟨rest, .here rest, .inr ⟨_, h.symm⟩⟩
      | matched c s' =>
        simp only at h
        split at h
        · exact ⟨rest, .here rest, .inr ⟨_, h.symm⟩⟩
        · next nonempty =>
          obtain ⟨s, skips, answer⟩ := h.2
          exact ⟨s, .next stops (Bool.eq_false_iff.2 more) yields (Bool.eq_false_iff.2 nonempty)
            skips, answer⟩

/-- A series under way takes one more element, or ends. -/
lemma traces_ofListing {element separator : Pattern ρ} {config : Series.Config} {count : Nat}
    (h : (ofListing element separator config input rest count).Reaches
      (fun g o => g.Yields definitions o ∧ g.Traces definitions o) o) :
    (Goal.listing element separator config input rest count).Traces definitions o := by
  rw [ofListing] at h
  split at h
  · next below =>
    have room := belowMax_eq_true_iff.1 below
    obtain ⟨o', ⟨separates, _⟩, h⟩ := h
    cases o' with
    | rejected e =>
      cases h
      exact ⟨0, [], rest, .zero rest, id, .ended (.rejected separates)⟩
    | matched c s' =>
      obtain ⟨o', ⟨yields, _⟩, h⟩ := h
      cases o' with
      -- A separator and an element are a round if less is left behind them than there was.
      | matched c' s'' =>
        simp only at h
        split at h
        · next same =>
          cases h
          exact ⟨0, [], rest, .zero rest, id, .ended (.idle separates yields same)⟩
        · next other =>
          obtain ⟨n, pieces, s, further, bound, concludes⟩ := h.2
          have sum : count + 1 + n = count + (n + 1) := by omega
          rw [sum] at bound concludes
          exact ⟨n + 1, _, s, .succ separates yields other further, fun _ => bound room, concludes⟩
      | rejected e =>
        simp only at h
        split at h
        · next same =>
          cases h
          exact ⟨0, [], rest, .zero rest, id, .ended (.bare separates yields same)⟩
        · next other =>
          have dangles : Dangles definitions element separator c rest s' e :=
            ⟨separates, other, yields⟩
          split at h
          · next forbidden =>
            cases h
            exact ⟨0, [], rest, .zero rest, id, .refused dangles room forbidden⟩
          · next allowed =>
            cases h
            exact ⟨0, [], rest, .zero rest, id, .trailing dangles room allowed⟩
  · next full =>
    cases h
    exact ⟨0, [], rest, .zero rest, id, .ended (.full (Bool.eq_false_iff.2 full))⟩

end Plan

/-- The answer of a loop under way is told by its rounds. -/
theorem Goal.Yields.traces {g : Goal ρ} (h : g.Yields definitions o) : g.Traces definitions o := by
  refine h.of_closed_yields fun g o reached => ?_
  cases g with
  | apply p input => trivial
  | resolve rule input => trivial
  | repeating body min max input rest count => exact Plan.traces_ofRepeating reached
  | scanning stop body input rest => exact Plan.traces_ofScanning reached
  | listing element separator config input rest count => exact Plan.traces_ofListing reached

/-- A series has no room for elements, or has no first element, or is told by its rounds. -/
theorem Goal.Yields.series_cases {element separator : Pattern ρ} {config : Series.Config}
    (h : (Goal.apply (.series element separator config) input).Yields definitions o) :
    (config.max = some 0 ∧ o = .empty input) ∨
    (config.max ≠ some 0 ∧ ∃ e, (Goal.apply element input).Yields definitions (.rejected e) ∧
      o = if config.min = 0 then .empty input else .rejected e) ∨
    (config.max ≠ some 0 ∧ ∃ n pieces s,
      Elements definitions element separator (n + 1) pieces input s ∧
      (∀ m ∈ config.max, n + 1 ≤ m) ∧
      Concludes definitions element separator config input (n + 1) s o) := by
  rw [Goal.yields_iff, Goal.plan, Pattern.plan] at h
  split at h
  · next full => exact .inl ⟨full, h.symm⟩
  · next room =>
    obtain ⟨o', yields, h⟩ := h
    cases o' with
    | rejected e => exact .inr (.inl ⟨room, e, yields, h.symm⟩)
    | matched c s' =>
      have listing : (Goal.listing element separator config input s' 1).Yields definitions o := h
      obtain ⟨n, pieces, s, further, bound, concludes⟩ := listing.traces
      have one : ∀ m ∈ config.max, 1 ≤ m := by
        intro m hm
        refine Nat.one_le_iff_ne_zero.2 fun zero => ?_
        rw [zero] at hm
        exact room hm
      rw [Nat.add_comm] at bound concludes
      exact .inr (.inr ⟨room, n, _, s, .cons yields further, bound one, concludes⟩)

end Recognizer
