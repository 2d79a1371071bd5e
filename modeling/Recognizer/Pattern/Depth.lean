import Recognizer.Pattern.Machine

/-!
# Depth that grows with the input

`Fits a b n k p` says that `p` comes to an outcome on every input of up to `n` bytes, within a depth
of `a` for each byte and `b` besides, and that a match consumes at least `k` bytes. Loops cost no
more than their bodies, because each round is paid for by a byte that it consumes; a pattern behind
one that consumes a byte may need `a` more than the one before it. This is what lets a rule refer to
itself behind a bracket.

The program has its outcomes by these facts and builds on the core library alone, where every fact
is a `theorem`.
-/

namespace Recognizer

variable {ρ : Type} {definitions : ρ → Resolution ρ} {a b n k : Nat}

/-- A match splits the bytes of the input and consumes at least `k` of them. -/
def Outcome.Splits (input : Slice) (k : Nat) (o : Outcome) : Prop :=
  ∀ consumed remainder, o = .matched consumed remainder →
    consumed.size + remainder.size = input.size ∧ k ≤ consumed.size

namespace Outcome

/-- A rejection consumes nothing. -/
theorem splits_rejected (input : Slice) (k : Nat) (e : Rejection) :
    (rejected e).Splits input k :=
  fun _ _ h => nomatch h

/-- An empty match leaves the whole input. -/
theorem splits_empty (input : Slice) : (empty input).Splits input 0 := by
  intro consumed remainder h
  cases h
  simp [Slice.nothing]

/-- A cut behind `n` bytes consumes these. -/
theorem splits_split (input : Slice) (n : Nat) : (split input n).Splits input n := by
  intro consumed remainder h
  rw [split] at h
  split at h
  · next hs =>
    cases h
    rw [Slice.splitAt?] at hs
    split at hs
    · obtain ⟨_, _, hr⟩ := Option.map_eq_some_iff.1 hs
      cases hr
      exact ⟨by simp only; omega, Nat.le_refl _⟩
    · cases hs
  · cases h

/-- A match up to `rest` consumes all bytes before it. -/
theorem splits_fromRemainder (input rest : Slice) :
    (fromRemainder input rest).Splits input (input.size - rest.size) := by
  intro consumed remainder h
  rw [fromRemainder] at h
  split at h
  · next hs =>
    cases h
    rw [Slice.before?] at hs
    split at hs
    · next he =>
      cases hs
      have := he.2.2
      exact ⟨by simp only; omega, Nat.le_refl _⟩
    · cases hs
  · cases h

/-- A match that consumes so many bytes consumes fewer as well. -/
theorem Splits.mono {input : Slice} {k k' : Nat} {o : Outcome} (h : o.Splits input k)
    (le : k' ≤ k) : o.Splits input k' :=
  fun consumed remainder ho => ⟨(h consumed remainder ho).1, Nat.le_trans le (h _ _ ho).2⟩

/-- What is said about a rejection does not matter here. -/
theorem Splits.mapRejection {input : Slice} {k : Nat} {o : Outcome} (h : o.Splits input k)
    (f : Rejection → Rejection) : (o.mapRejection f).Splits input k := by
  cases o with
  | matched consumed remainder => exact h
  | rejected e => exact splits_rejected input k (f e)

end Outcome

/-- Follow a plan through the goal that it waits for. -/
theorem Plan.follow_await {answer : Goal ρ → Option Outcome} {g : Goal ρ} {o : Outcome}
    (next : Outcome → Plan ρ) (h : answer g = some o) :
    (Plan.await g next).follow answer = (next o).follow answer := by
  rw [follow, h, Option.bind_some]

namespace Pattern

/-- On inputs of up to `n` bytes, `p` comes to an outcome within depth `a * size + b`, and a match
consumes at least `k` bytes. -/
def Fits (definitions : ρ → Resolution ρ) (a b n k : Nat) (p : Pattern ρ) : Prop :=
  ∀ input : Slice, input.size ≤ n →
    ∃ o, (Goal.apply p input).run definitions (a * input.size + b) = some o ∧ o.Splits input k

/-- More depth, shorter inputs and fewer consumed bytes are fitted as well. -/
theorem Fits.mono {b' n' k' : Nat} {p : Pattern ρ} (h : p.Fits definitions a b n k)
    (hb : b ≤ b') (hn : n' ≤ n) (hk : k' ≤ k) : p.Fits definitions a b' n' k' := by
  intro input hi
  obtain ⟨o, ho, hs⟩ := h input (Nat.le_trans hi hn)
  exact ⟨o, Goal.run_mono (by omega) ho, hs.mono hk⟩

/-- The answer of a pattern that fits, at a depth that is large enough. -/
theorem Fits.run {p : Pattern ρ} (h : p.Fits definitions a b n k) {input : Slice}
    (hi : input.size ≤ n) {depth : Nat} (hd : a * input.size + b ≤ depth) :
    ∃ o, (Goal.apply p input).run definitions depth = some o ∧ o.Splits input k := by
  obtain ⟨o, ho, hs⟩ := h input hi
  exact ⟨o, Goal.run_mono hd ho, hs⟩

/-- It is enough to follow the plan of a pattern one level below. -/
theorem fits_of_plan {p : Pattern ρ}
    (h : ∀ input : Slice, input.size ≤ n → ∃ o,
      (p.plan input).follow (Goal.run definitions (a * input.size + b)) = some o ∧
        o.Splits input k) :
    p.Fits definitions a (b + 1) n k :=
  h

/-- A character that is accepted has at least one byte. -/
theorem fits_satisfy (accepts : Char → Bool) :
    (satisfy accepts : Pattern ρ).Fits definitions a 1 n 1 := by
  refine fits_of_plan fun input _ => ⟨_, rfl, ?_⟩
  rw [Outcome.ofChar]
  split
  · exact Outcome.splits_rejected _ _ _
  · next ch _ =>
    split
    · exact (Outcome.splits_split _ _).mono ch.utf8Size_pos
    · exact Outcome.splits_rejected _ _ _

/-- A literal may be empty. -/
theorem fits_literal (text : String) :
    (literal text : Pattern ρ).Fits definitions a 1 n 0 := by
  refine fits_of_plan fun input _ => ⟨_, rfl, ?_⟩
  rw [Outcome.ofText]
  repeat' split
  · exact (Outcome.splits_split _ _).mono (Nat.zero_le _)
  all_goals exact Outcome.splits_rejected _ _ _

/-- The end of the input consumes nothing. -/
theorem fits_endOfInput : (endOfInput : Pattern ρ).Fits definitions a 1 n 0 := by
  refine fits_of_plan fun input _ => ⟨_, rfl, ?_⟩
  rw [Outcome.ofEnd]
  split
  · exact Outcome.splits_empty input
  · exact Outcome.splits_rejected _ _ _

/-- The parts of a sequence fit, each on what is left at its place. -/
inductive AllFit (definitions : ρ → Resolution ρ) (a : Nat) :
    Nat → Nat → Nat → List (Pattern ρ) → Prop where
  | nil (b n : Nat) : AllFit definitions a b n 0 []
  | cons {b n k k' : Nat} {p : Pattern ρ} {ps : List (Pattern ρ)} :
    Fits definitions a b n k p →
    (k ≤ n → AllFit definitions a (b + a * k) (n - k) k' ps) →
    AllFit definitions a b n (k + k') (p :: ps)

/-- A sequence under way comes to an outcome, and its match consumes what the parts consume. -/
theorem AllFit.follow {parts : List (Pattern ρ)} (h : AllFit definitions a b n k parts)
    {input rest : Slice} (hr : rest.size ≤ n) (hi : rest.size ≤ input.size) {depth : Nat}
    (hd : a * rest.size + b ≤ depth) :
    ∃ o, (Plan.ofParts input parts rest).follow (Goal.run definitions depth) = some o ∧
      o.Splits input (input.size - rest.size + k) := by
  induction h generalizing rest with
  | nil => exact ⟨_, rfl, Outcome.splits_fromRemainder input rest⟩
  | @cons b n k k' p ps hp _ ih =>
    obtain ⟨o, ho, hs⟩ := hp.run hr hd
    rw [Plan.ofParts, Plan.follow_await _ ho]
    cases o with
    | rejected e => exact ⟨_, rfl, Outcome.splits_rejected _ _ _⟩
    | matched consumed remainder =>
      obtain ⟨hsum, hk⟩ := hs consumed remainder rfl
      have hmul : a * remainder.size + a * k ≤ a * rest.size := by
        rw [← Nat.mul_add]
        exact Nat.mul_le_mul_left a (by omega)
      obtain ⟨o, ho, hs⟩ := ih (by omega) (show remainder.size ≤ n - k by omega) (by omega)
        (show a * remainder.size + (b + a * k) ≤ depth by omega)
      exact ⟨o, ho, hs.mono (by omega)⟩

/-- A sequence fits one level above its parts. -/
theorem fits_concat {parts : List (Pattern ρ)} (h : AllFit definitions a b n k parts) :
    (concat parts).Fits definitions a (b + 1) n k :=
  fits_of_plan fun input hi => by
    obtain ⟨o, ho, hs⟩ := h.follow hi (Nat.le_refl _) (Nat.le_refl _)
    exact ⟨o, ho, hs.mono (by omega)⟩

/-- A choice under way comes to an outcome, whatever has been rejected before. -/
theorem follow_ofChoices {choices : List (Pattern ρ)}
    (h : ∀ p ∈ choices, p.Fits definitions a b n k) {input : Slice} (hi : input.size ≤ n)
    (best : Option Rejection) :
    ∃ o, (Plan.ofChoices input choices best).follow
      (Goal.run definitions (a * input.size + b)) = some o ∧ o.Splits input k := by
  induction choices generalizing best with
  | nil =>
    refine ⟨_, rfl, ?_⟩
    rw [Outcome.ofFurthest.eq_def]
    repeat' split
    all_goals exact Outcome.splits_rejected _ _ _
  | cons p ps ih =>
    obtain ⟨o, ho, hs⟩ := h p (List.mem_cons_self ..) input hi
    rw [Plan.ofChoices, Plan.follow_await _ ho]
    cases o with
    | matched consumed remainder => exact ⟨_, rfl, hs⟩
    | rejected e => exact ih (fun q hq => h q (List.mem_cons_of_mem _ hq)) _

/-- A choice fits one level above what it chooses from. -/
theorem fits_firstOf {choices : List (Pattern ρ)}
    (h : ∀ p ∈ choices, p.Fits definitions a b n k) :
    (firstOf choices).Fits definitions a (b + 1) n k :=
  fits_of_plan fun _ hi => follow_ofChoices h hi none

/-- An optional pattern fits, and may consume nothing. -/
theorem fits_optional {p : Pattern ρ} (h : p.Fits definitions a b n k) :
    (optional p).Fits definitions a (b + 1) n 0 :=
  fits_of_plan fun input hi => by
    obtain ⟨o, ho, hs⟩ := h input hi
    rw [plan, Plan.follow_await _ ho]
    cases o with
    | matched consumed remainder => exact ⟨_, rfl, hs.mono (Nat.zero_le _)⟩
    | rejected e => exact ⟨_, rfl, Outcome.splits_empty input⟩

/-- A pattern under a condition fits if the condition does. -/
theorem fits_implies {p q : Pattern ρ} (hp : p.Fits definitions a b n 0)
    (hq : q.Fits definitions a b n 0) : (implies p q).Fits definitions a (b + 1) n 0 :=
  fits_of_plan fun input hi => by
    obtain ⟨o, ho, hs⟩ := hp input hi
    rw [plan, Plan.follow_await _ ho]
    cases o with
    | rejected e => exact ⟨_, rfl, Outcome.splits_empty input⟩
    | matched consumed remainder =>
      have hsum := (hs consumed remainder rfl).1
      have hd : a * remainder.size + b ≤ a * input.size + b :=
        Nat.add_le_add_right (Nat.mul_le_mul_left a (by omega)) b
      obtain ⟨o, ho, _⟩ := hq.run (by omega) hd
      simp only
      rw [Plan.follow_await _ ho]
      cases o with
      | matched consumed' rest =>
        exact ⟨_, rfl, (Outcome.splits_fromRemainder _ _).mono (Nat.zero_le _)⟩
      | rejected e => exact ⟨_, rfl, Outcome.splits_rejected _ _ _⟩

/-- A repetition that ends matches up to where it ends, or rejects. -/
theorem splits_ofRepeated (min : Nat) (input rest : Slice) (count : Nat)
    (stoppedBy : Option Rejection) :
    (Outcome.ofRepeated min input rest count stoppedBy).Splits input 0 := by
  rw [Outcome.ofRepeated.eq_def]
  split
  · exact (Outcome.splits_fromRemainder _ _).mono (Nat.zero_le _)
  · split <;> exact Outcome.splits_rejected _ _ _

/-- The loop of a repetition needs as much depth as its body: each round is paid for by a byte. -/
theorem Fits.run_repeating {p : Pattern ρ} (ha : 1 ≤ a) (h : p.Fits definitions a b n 0)
    (min : Nat) (max : Option Nat) (input rest : Slice) (count : Nat) (hr : rest.size ≤ n) :
    ∃ o, (Goal.repeating p min max input rest count).run definitions (a * rest.size + b + 1) =
      some o ∧ o.Splits input 0 := by
  generalize hm : rest.size = m
  -- A round consumes a byte, so the induction is on how many are left.
  induction m using Nat.strongRecOn generalizing rest count with
  | ind m ih =>
    obtain ⟨o, ho, hs⟩ := h rest hr
    rw [hm] at ho
    rw [Goal.run, Goal.plan, Plan.ofRepeating]
    split
    · rw [Plan.follow_await _ ho]
      cases o with
      | rejected e => exact ⟨_, rfl, splits_ofRepeated _ _ _ _ _⟩
      | matched consumed remainder =>
        simp only
        split
        · exact ⟨_, rfl, splits_ofRepeated _ _ _ _ _⟩
        · next hne =>
          have hsum := (hs consumed remainder rfl).1
          simp only [Slice.isEmpty, beq_iff_eq] at hne
          have lt : remainder.size < m := by omega
          obtain ⟨o, ho, hs⟩ := ih remainder.size lt remainder (count + 1) (by omega) rfl
          refine ⟨o, Goal.run_mono ?_ ho, hs⟩
          have : a * remainder.size + a ≤ a * m := by
            rw [← Nat.mul_succ]
            exact Nat.mul_le_mul_left a lt
          omega
    · exact ⟨_, rfl, splits_ofRepeated _ _ _ _ _⟩

/-- A repetition fits two levels above its body. -/
theorem fits_repeated {p : Pattern ρ} (ha : 1 ≤ a) (h : p.Fits definitions a b n 0) (min : Nat)
    (max : Option Nat) : (repeated p min max).Fits definitions a (b + 2) n 0 :=
  fits_of_plan fun input hi => h.run_repeating ha min max input input 0 hi

/-- So does the loop of a scan, of whose two patterns only the body goes on. -/
theorem Fits.run_scanning {p q : Pattern ρ} (ha : 1 ≤ a) (hp : p.Fits definitions a b n 0)
    (hq : q.Fits definitions a b n 0) (input rest : Slice) (hr : rest.size ≤ n) :
    ∃ o, (Goal.scanning p q input rest).run definitions (a * rest.size + b + 1) = some o ∧
      o.Splits input 0 := by
  generalize hm : rest.size = m
  induction m using Nat.strongRecOn generalizing rest with
  | ind m ih =>
    obtain ⟨o, ho, _⟩ := hp rest hr
    rw [hm] at ho
    rw [Goal.run, Goal.plan, Plan.ofScanning, Plan.follow_await _ ho]
    cases o with
    | matched _ remainder =>
      exact ⟨_, rfl, (Outcome.splits_fromRemainder _ _).mono (Nat.zero_le _)⟩
    | rejected e =>
      simp only
      split
      · exact ⟨_, rfl, Outcome.splits_rejected _ _ _⟩
      · obtain ⟨o, ho, hs⟩ := hq rest hr
        rw [hm] at ho
        rw [Plan.follow_await _ ho]
        cases o with
        | rejected e => exact ⟨_, rfl, Outcome.splits_rejected _ _ _⟩
        | matched consumed remainder =>
          simp only
          split
          · exact ⟨_, rfl, Outcome.splits_rejected _ _ _⟩
          · next hne =>
            have hsum := (hs consumed remainder rfl).1
            simp only [Slice.isEmpty, beq_iff_eq] at hne
            have lt : remainder.size < m := by omega
            obtain ⟨o, ho, hs⟩ := ih remainder.size lt remainder (by omega) rfl
            refine ⟨o, Goal.run_mono ?_ ho, hs⟩
            have : a * remainder.size + a ≤ a * m := by
              rw [← Nat.mul_succ]
              exact Nat.mul_le_mul_left a lt
            omega

/-- A scan fits two levels above its patterns. -/
theorem fits_scan {p q : Pattern ρ} (ha : 1 ≤ a) (hp : p.Fits definitions a b n 0)
    (hq : q.Fits definitions a b n 0) : (scan p q).Fits definitions a (b + 2) n 0 :=
  fits_of_plan fun input hi => hp.run_scanning ha hq input input hi

/-- A series that ends matches up to where it ends, or rejects. -/
theorem splits_ofSeries (min : Nat) (input rest : Slice) (count : Nat) :
    (Outcome.ofSeries min input rest count).Splits input 0 := by
  rw [Outcome.ofSeries]
  split
  · exact Outcome.splits_rejected _ _ _
  · exact (Outcome.splits_fromRemainder _ _).mono (Nat.zero_le _)

/-- A series whose separators consume something. -/
theorem Fits.run_listing {p q : Pattern ρ} (ha : 1 ≤ a) (hp : p.Fits definitions a b n 0)
    (hq : q.Fits definitions a b n 1) (config : Series.Config) (input rest : Slice) (count : Nat)
    (hr : rest.size ≤ n) :
    ∃ o, (Goal.listing p q config input rest count).run definitions (a * rest.size + b + 1) =
      some o ∧ o.Splits input 0 := by
  generalize hm : rest.size = m
  induction m using Nat.strongRecOn generalizing rest count with
  | ind m ih =>
    obtain ⟨o, ho, hs⟩ := hq rest hr
    rw [hm] at ho
    rw [Goal.run, Goal.plan, Plan.ofListing]
    split
    · rw [Plan.follow_await _ ho]
      cases o with
      | rejected e => exact ⟨_, rfl, splits_ofSeries _ _ _ _⟩
      | matched consumed after =>
        -- The byte of the separator pays for the element, and for the next round.
        obtain ⟨hsum, hone⟩ := hs consumed after rfl
        have hd : a * after.size + b ≤ a * m + b :=
          Nat.add_le_add_right (Nat.mul_le_mul_left a (by omega)) b
        obtain ⟨o, ho, hs⟩ := hp.run (by omega) hd
        simp only
        rw [Plan.follow_await _ ho]
        cases o with
        | rejected e =>
          simp only
          split
          · exact ⟨_, rfl, splits_ofSeries _ _ _ _⟩
          · split
            · exact ⟨_, rfl, Outcome.splits_rejected _ _ _⟩
            · exact ⟨_, rfl, splits_ofSeries _ _ _ _⟩
        | matched consumed remainder =>
          simp only
          split
          · exact ⟨_, rfl, splits_ofSeries _ _ _ _⟩
          · have hsum' := (hs consumed remainder rfl).1
            have lt : remainder.size < m := by omega
            obtain ⟨o, ho, hs⟩ := ih remainder.size lt remainder (count + 1) (by omega) rfl
            refine ⟨o, Goal.run_mono ?_ ho, hs⟩
            have : a * remainder.size + a ≤ a * m := by
              rw [← Nat.mul_succ]
              exact Nat.mul_le_mul_left a lt
            omega
    · exact ⟨_, rfl, splits_ofSeries _ _ _ _⟩

/-- A series fits two levels above its patterns. -/
theorem fits_series {p q : Pattern ρ} (ha : 1 ≤ a) (hp : p.Fits definitions a b n 0)
    (hq : q.Fits definitions a b n 1) (config : Series.Config) :
    (series p q config).Fits definitions a (b + 2) n 0 :=
  fits_of_plan fun input hi => by
    rw [plan]
    split
    · exact ⟨_, rfl, Outcome.splits_empty input⟩
    · have hd : a * input.size + b ≤ a * input.size + (b + 1) := by omega
      obtain ⟨o, ho, hs⟩ := hp.run hi hd
      rw [Plan.follow_await _ ho]
      cases o with
      | rejected e =>
        refine ⟨_, rfl, ?_⟩
        split
        · exact Outcome.splits_empty input
        · exact Outcome.splits_rejected _ _ _
      | matched consumed remainder =>
        have hsum := (hs consumed remainder rfl).1
        obtain ⟨o, ho, hs⟩ := hp.run_listing ha hq config input remainder 1 (by omega)
        refine ⟨o, Goal.run_mono ?_ ho, hs⟩
        have := Nat.mul_le_mul_left a (show remainder.size ≤ input.size by omega)
        omega

/-- A label costs one level. -/
theorem fits_label {p : Pattern ρ} (h : p.Fits definitions a b n k) (message : String) :
    (label p message).Fits definitions a (b + 1) n k :=
  fits_of_plan fun input hi => by
    obtain ⟨o, ho, hs⟩ := h input hi
    rw [plan, Plan.follow_await _ ho]
    exact ⟨_, rfl, hs.mapRejection _⟩

/-- A context costs one level. -/
theorem fits_context {p : Pattern ρ} (h : p.Fits definitions a b n k) (name : String) :
    (context p name).Fits definitions a (b + 1) n k :=
  fits_of_plan fun input hi => by
    obtain ⟨o, ho, hs⟩ := h input hi
    rw [plan, Plan.follow_await _ ho]
    exact ⟨_, rfl, hs.mapRejection _⟩

/-- A reference fits two levels above the definition of its rule. -/
theorem fits_refer {rule : ρ} {p : Pattern ρ} (hr : definitions rule = .defined p)
    (h : p.Fits definitions a b n k) : (refer rule).Fits definitions a (b + 2) n k :=
  fits_of_plan fun input hi => by
    obtain ⟨o, ho, hs⟩ := h input hi
    refine ⟨o, ?_, hs⟩
    show (Goal.plan definitions (.resolve rule input)).follow _ = some o
    rw [Goal.plan, hr]
    exact ho

end Pattern

end Recognizer
