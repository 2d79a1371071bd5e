import Recognizer.Proofs.Pattern.Rules

/-!
# The verdicts of loops and choices

A loop is a course: each round goes on behind what it has consumed, and a rule says how a round ends
or goes on. A choice that all but one of its patterns refuse at once is decided by that one.
-/

namespace Recognizer

open Text

variable {ρ : Type} {definitions : ρ → Resolution ρ}

/-- There is room for one more unless all that are allowed have been counted. -/
lemma belowMax_iff {max : Option Nat} {count : Nat} :
    belowMax max count = true ↔ max.map (· - count) ≠ some 0 := by
  cases max with
  | none => simp [belowMax]
  | some max => simp [belowMax, Nat.sub_eq_zero_iff_le]

/-- How far the best rejection so far got. -/
def Rejection.reach (best : Option Rejection) : Nat :=
  best.elim 0 offset

/-- The further of two rejections lies where the further one lies. -/
lemma Rejection.offset_further (best : Option Rejection) (e : Rejection) :
    (further best e).offset = max (reach best) e.offset := by
  cases best with
  | none => exact (Nat.zero_max _).symm
  | some best =>
    show _ = max best.offset e.offset
    rw [further]
    split
    · omega
    · omega

/-- A choice that rejects does so as far behind as its best rejection. -/
lemma Outcome.exists_ofFurthest (best : Option Rejection) :
    ∃ e, ofFurthest best = .rejected e ∧ e.offset = Rejection.reach best := by
  cases best with
  | none => exact ⟨_, rfl, rfl⟩
  | some best =>
    rw [ofFurthest]
    split
    · exact ⟨best, rfl, rfl⟩
    · next h => exact ⟨_, rfl, (Nat.eq_zero_of_not_pos h).symm⟩

namespace Course

variable {p q : Pattern ρ} {as bs cs : List Char} {v : Verdict} {e : Rejection}

/-- A repetition under way with `count` matches. -/
def repeating (body : Pattern ρ) (min : Nat) (max : Option Nat) (count : Nat) : Course ρ :=
  fun input rest => .become (.repeating body min max input rest count)

variable {min count : Nat} {max : Option Nat}

/-- A repetition starts without matches. -/
lemma Answers.repeated (h : (repeating p min max 0).Answers definitions cs v) :
    (Pattern.repeated p min max).Answers definitions cs v :=
  h.pattern fun _ => rfl

/-- What consumes no characters is empty. -/
lemma isEmpty_eq_true {taken : Slice} (size : taken.size = byteLength []) :
    taken.isEmpty = true := by
  rw [Slice.isEmpty, size, byteLength_nil]
  rfl

/-- A slice that is taken by a cut of some characters is not empty. -/
lemma isEmpty_eq_false {taken : Slice} (ne : as ≠ []) (size : taken.size = byteLength as) :
    ¬ taken.isEmpty = true := by
  rw [Slice.isEmpty, beq_iff_eq, size, byteLength_eq_zero]
  exact ne

/-- The verdict where a repetition ends with `count` matches, as `Outcome.ofRepeated` says. -/
def ofRepeated (min count : Nat) (cs : List Char) (stoppedBy : Option Rejection) : Verdict :=
  if min ≤ count then .taken [] cs
  else .refused (stoppedBy.getD { cause := .tooFewRepetitions min count })

/-- Where the repetition ends for a known reason it answers so. -/
lemma ends_repeating {stoppedBy : Option Rejection}
    (h : ∀ input rest : Slice, rest.Spells cs →
      (Plan.ofRepeating p min max input rest count).Reaches (Goal.Yields definitions)
        (.ofRepeated min input rest count stoppedBy)) :
    (repeating p min max count).Answers definitions cs (ofRepeated min count cs stoppedBy) := by
  have yields (input rest : Slice) (hs : rest.Spells cs) :
      (Goal.repeating p min max input rest count).Yields definitions
        (.ofRepeated min input rest count stoppedBy) := Goal.yields_iff.2 (h input rest hs)
  rw [ofRepeated]
  split
  · next enough =>
    refine answers_nil fun input rest hs => ?_
    have outcome := yields input rest hs
    rw [Outcome.ofRepeated.eq_def, if_pos enough] at outcome
    exact outcome
  · next early =>
    refine ⟨trivial, fun input rest _ hs => ?_⟩
    have outcome := yields input rest hs
    rw [Outcome.ofRepeated.eq_def, if_neg early] at outcome
    cases stoppedBy with
    | some e => exact outcome
    | none =>
      rw [Outcome.refuseAt, ← Nat.zero_add (input.progress rest)] at outcome
      exact outcome

/-- A repetition ends where it is full. -/
lemma repeating_full (p : Pattern ρ) (min : Nat) (full : belowMax max count = false)
    (cs : List Char) :
    (repeating p min max count).Answers definitions cs (ofRepeated min count cs none) := by
  refine ends_repeating fun input rest _ => ?_
  rw [Plan.ofRepeating, if_neg (by simp [full])]
  rfl

/-- A repetition ends where its body is refused. -/
lemma repeating_refused (min : Nat) (room : belowMax max count = true)
    (hp : p.Answers definitions cs (.refused e)) :
    (repeating p min max count).Answers definitions cs (ofRepeated min count cs (some e)) := by
  refine ends_repeating fun input rest hs => ?_
  rw [Plan.ofRepeating, if_pos room]
  exact ⟨_, hp.rejected hs, rfl⟩

/-- It also ends where its body takes nothing. -/
lemma repeating_idle (min : Nat) (room : belowMax max count = true)
    (hp : p.Answers definitions cs (.taken [] bs)) :
    (repeating p min max count).Answers definitions cs (ofRepeated min count cs none) := by
  refine ends_repeating fun input rest hs => ?_
  obtain ⟨taken, rest', yields, _, _, _, _, size⟩ := hp.matched hs
  rw [Plan.ofRepeating, if_pos room]
  refine ⟨_, yields, ?_⟩
  simp only
  rw [if_pos (isEmpty_eq_true size)]
  rfl

/-- A full repetition with enough matches accepts nothing more. -/
lemma answers_repeating_full (full : belowMax max count = false) (enough : min ≤ count)
    (bs : List Char) : (repeating p min max count).Answers definitions bs (.taken [] bs) := by
  have ends : (repeating p min max count).Answers definitions bs (ofRepeated min count bs none) :=
    repeating_full p min full bs
  rwa [ofRepeated, if_pos enough] at ends

/-- Nor does one whose body is refused. -/
lemma answers_repeating_stop (room : belowMax max count = true) (enough : min ≤ count)
    (hp : p.Answers definitions bs (.refused e)) :
    (repeating p min max count).Answers definitions bs (.taken [] bs) := by
  have ends := repeating_refused min room hp
  rwa [ofRepeated, if_pos enough] at ends

/-- If that is too early, the repetition is refused for what its body is refused for. -/
lemma refuses_repeating (room : belowMax max count = true) (early : count < min)
    (hp : p.Answers definitions cs (.refused e)) :
    (repeating p min max count).Answers definitions cs (.refused e) := by
  have ends := repeating_refused min room hp
  rwa [ofRepeated, if_neg (by omega)] at ends

/-- A match of the body that consumes something is followed by the rest of the repetition. -/
lemma answers_repeating_more (room : belowMax max count = true) (ne : as ≠ [])
    (hp : p.Answers definitions cs (.taken as bs))
    (h : (repeating p min max (count + 1)).Answers definitions bs v) :
    (repeating p min max count).Answers definitions cs (v.behind as) := by
  refine .behind hp ?_ h
  intro input rest taken rest' o yields _ size _ reaches
  refine Goal.yields_iff.2 ?_
  rw [Goal.plan, Plan.ofRepeating, if_pos room]
  refine ⟨_, yields, ?_⟩
  simp only
  rw [if_neg (isEmpty_eq_false ne size)]
  exact reaches

/-- A scan under way. -/
def scanning (stop body : Pattern ρ) : Course ρ :=
  fun input rest => .become (.scanning stop body input rest)

/-- A scan is under way from its start. -/
lemma Answers.scan (h : (scanning p q).Answers definitions cs v) :
    (Pattern.scan p q).Answers definitions cs v :=
  h.pattern fun _ => rfl

/-- A scan ends with what the stop accepts. -/
lemma answers_scanning_stop (hp : p.Answers definitions cs (.taken as bs)) :
    (scanning p q).Answers definitions cs (.taken as bs) := by
  have splits : cs = as ++ bs := hp.splits
  subst splits
  refine ⟨rfl, fun input rest hr hs => Goal.yields_iff.2 ?_⟩
  obtain ⟨taken, rest', yields, tail, progress, _⟩ := hp.matched hs
  refine ⟨_, yields, ?_⟩
  show Outcome.fromRemainder input rest' = _
  rw [(hr.trans tail).fromRemainder_eq, hr.progress_trans tail, progress, Verdict.outcome]

/-- At the end of the text a scan has not been ended. -/
lemma refuses_scanning_nil (hp : p.Answers definitions [] (.refused e)) :
    (scanning p q).Answers definitions [] (.refused { cause := .unterminated }) := by
  refine ⟨trivial, fun input rest hr hs => Goal.yields_iff.2 ?_⟩
  refine ⟨_, hp.rejected hs, ?_⟩
  simp only
  rw [if_pos (hs.isEmpty_iff.2 rfl)]
  simp [Plan.Reaches, Verdict.outcome, Outcome.refuseAt, Rejection.shifted]

/-- Where neither is accepted, the refusal of the body counts. -/
lemma refuses_scanning {e' : Rejection} (hp : p.Answers definitions cs (.refused e')) (ne : cs ≠ [])
    (hq : q.Answers definitions cs (.refused e)) :
    (scanning p q).Answers definitions cs (.refused e) := by
  refine ⟨trivial, fun input rest hr hs => Goal.yields_iff.2 ?_⟩
  refine ⟨_, hp.rejected hs, ?_⟩
  simp only
  rw [if_neg fun he => ne (hs.isEmpty_iff.1 he)]
  exact ⟨_, hq.rejected hs, rfl⟩

/-- A body that accepts nothing makes no progress. -/
lemma refuses_scanning_idle (hp : p.Answers definitions cs (.refused e)) (ne : cs ≠ [])
    (hq : q.Answers definitions cs (.taken [] bs)) :
    (scanning p q).Answers definitions cs (.refused { cause := .noProgress }) := by
  refine ⟨trivial, fun input rest hr hs => Goal.yields_iff.2 ?_⟩
  obtain ⟨taken, rest', yields, _, _, _, _, size⟩ := hq.matched hs
  refine ⟨_, hp.rejected hs, ?_⟩
  simp only
  rw [if_neg fun he => ne (hs.isEmpty_iff.1 he)]
  refine ⟨_, yields, ?_⟩
  simp only
  rw [if_pos (isEmpty_eq_true size)]
  simp [Plan.Reaches, Verdict.outcome, Outcome.refuseAt, Rejection.shifted]

/-- What the body accepts is skipped. -/
lemma answers_scanning_more (hp : p.Answers definitions cs (.refused e)) (ne : as ≠ [])
    (hq : q.Answers definitions cs (.taken as bs))
    (h : (scanning p q).Answers definitions bs v) :
    (scanning p q).Answers definitions cs (v.behind as) := by
  have splits : cs = as ++ bs := hq.splits
  subst splits
  refine ⟨h.splits.behind as, fun input rest hr hs => Goal.yields_iff.2 ?_⟩
  obtain ⟨taken, rest', yields, tail, progress, _, hs', size⟩ := hq.matched hs
  rw [Verdict.outcome_behind hr tail progress]
  refine ⟨_, hp.rejected hs, ?_⟩
  simp only
  rw [if_neg fun he => ne (List.append_eq_nil_iff.1 (hs.isEmpty_iff.1 he)).1]
  refine ⟨_, yields, ?_⟩
  simp only
  rw [if_neg (isEmpty_eq_false ne size)]
  exact h.reaches input rest' (hr.trans tail) hs'

/-- A series under way behind `count` elements. -/
def listing (element separator : Pattern ρ) (trailing : Series.Trailing) (count : Nat) : Course ρ :=
  fun input rest => .become (.listing element separator { trailing } input rest count)

variable {trailing : Series.Trailing}

/-- A series starts with an element. -/
lemma answers_series (hp : p.Answers definitions cs (.taken as bs))
    (h : (listing p q trailing 1).Answers definitions bs v) :
    (Pattern.series p q { trailing }).Answers definitions cs (v.behind as) := by
  have splits : cs = as ++ bs := hp.splits
  subst splits
  refine Pattern.answers_of_plan (h.splits.behind as) fun input hi => ?_
  obtain ⟨taken, rest, yields, tail, progress, _, hr, _⟩ := hp.matched hi
  rw [Verdict.outcome_behind (.refl input) tail progress, Pattern.plan, if_neg (by simp)]
  exact ⟨_, yields, h.reaches input rest tail hr⟩

/-- A series is refused as its first element is. -/
lemma refuses_series (hp : p.Answers definitions cs (.refused e)) (q : Pattern ρ)
    (trailing : Series.Trailing) :
    (Pattern.series p q { trailing }).Answers definitions cs (.refused e) := by
  refine Pattern.answers_of_plan trivial fun input hi => ?_
  rw [Verdict.outcome_self_refused, Pattern.plan, if_neg (by simp)]
  exact ⟨_, hp.rejected hi, rfl⟩

variable {xs ys bs' : List Char}

/-- A series with elements may end anywhere. -/
lemma ends_listing (hc : 1 ≤ count) (input rest : Slice) :
    Outcome.ofSeries 1 input rest count = .fromRemainder input rest := by
  rw [Outcome.ofSeries, if_neg (by omega)]

/-- A series ends where no separator is accepted. -/
lemma answers_listing_stop (hc : 1 ≤ count) (hq : q.Answers definitions bs (.refused e)) :
    (listing p q trailing count).Answers definitions bs (.taken [] bs) := by
  refine answers_nil fun input rest hs => Goal.yields_iff.2 ?_
  exact ⟨_, hq.rejected hs, ends_listing hc input rest⟩

/-- A separator with an element behind it lets a series go on, if they take something. -/
lemma answers_listing_more (hq : q.Answers definitions cs (.taken xs bs'))
    (hp : p.Answers definitions bs' (.taken ys bs)) (ne : xs ++ ys ≠ [])
    (h : (listing p q trailing (count + 1)).Answers definitions bs v) :
    (listing p q trailing count).Answers definitions cs ((v.behind ys).behind xs) := by
  have splits : cs = xs ++ bs' := hq.splits
  have splits' : bs' = ys ++ bs := hp.splits
  subst splits
  subst splits'
  refine ⟨(h.splits.behind ys).behind xs, fun input rest hr hs => Goal.yields_iff.2 ?_⟩
  obtain ⟨taken, rest', yields, tail, progress, _, hs', _⟩ := hq.matched hs
  obtain ⟨taken', rest'', yields', tail', progress', _, hs'', _⟩ := hp.matched hs'
  have sum := tail.progress_append tail' progress progress'
  rw [Verdict.outcome_behind hr tail progress,
    Verdict.outcome_behind (hr.trans tail) tail' progress']
  refine ⟨_, yields, _, yields', ?_⟩
  simp only
  rw [if_neg (mt ((tail.trans tail').size_eq_iff sum).1 ne)]
  exact h.reaches input rest'' ((hr.trans tail).trans tail') hs''

/-- If they take nothing, the series ends. -/
lemma answers_listing_idle (hc : 1 ≤ count) (hq : q.Answers definitions cs (.taken [] bs'))
    (hp : p.Answers definitions bs' (.taken [] bs)) :
    (listing p q trailing count).Answers definitions cs (.taken [] cs) := by
  refine answers_nil fun input rest hs => Goal.yields_iff.2 ?_
  obtain ⟨taken, rest', yields, tail, progress, _, hs', _⟩ := hq.matched hs
  obtain ⟨taken', rest'', yields', tail', progress', _⟩ := hp.matched hs'
  have sum := tail.progress_append tail' progress progress'
  refine ⟨_, yields, _, yields', ?_⟩
  simp only
  rw [if_pos (((tail.trans tail').size_eq_iff sum).2 rfl)]
  exact ends_listing hc input rest

/-- A separator that takes nothing and has no element behind it ends the series, too. -/
lemma answers_listing_bare (hc : 1 ≤ count) (hq : q.Answers definitions cs (.taken [] bs))
    (hp : p.Answers definitions bs (.refused e)) :
    (listing p q trailing count).Answers definitions cs (.taken [] cs) := by
  refine answers_nil fun input rest hs => Goal.yields_iff.2 ?_
  obtain ⟨taken, rest', yields, tail, progress, _, hs', _⟩ := hq.matched hs
  refine ⟨_, yields, _, hp.rejected hs', ?_⟩
  simp only
  rw [if_pos ((tail.size_eq_iff progress).2 rfl)]
  exact ends_listing hc input rest

/-- A separator that takes something and has no element behind it refuses the series. -/
lemma refuses_listing (hq : q.Answers definitions cs (.taken xs bs)) (ne : xs ≠ [])
    (hp : p.Answers definitions bs (.refused e)) :
    (listing p q .forbidden count).Answers definitions cs ((Verdict.refused e).behind xs) := by
  have splits : cs = xs ++ bs := hq.splits
  subst splits
  refine ⟨trivial, fun input rest hr hs => Goal.yields_iff.2 ?_⟩
  obtain ⟨taken, rest', yields, tail, progress, _, hs', _⟩ := hq.matched hs
  rw [Verdict.outcome_behind hr tail progress]
  refine ⟨_, yields, _, hp.rejected hs', ?_⟩
  simp only
  rw [if_neg (mt (tail.size_eq_iff progress).1 ne)]
  rfl

/-- It ends the series, if that is allowed. -/
lemma answers_listing_trailing (hc : 1 ≤ count) (hq : q.Answers definitions cs (.taken xs bs))
    (ne : xs ≠ []) (hp : p.Answers definitions bs (.refused e)) :
    (listing p q .allowed count).Answers definitions cs (.taken xs bs) := by
  have splits : cs = xs ++ bs := hq.splits
  subst splits
  refine ⟨rfl, fun input rest hr hs => Goal.yields_iff.2 ?_⟩
  obtain ⟨taken, rest', yields, tail, progress, _, hs', _⟩ := hq.matched hs
  refine ⟨_, yields, _, hp.rejected hs', ?_⟩
  simp only
  rw [if_neg (mt (tail.size_eq_iff progress).1 ne), Verdict.outcome, ← progress,
    ← hr.progress_trans tail, ← (hr.trans tail).fromRemainder_eq]
  exact ends_listing hc input rest'

end Course

namespace Pattern

variable {p q : Pattern ρ} {ps qs : List (Pattern ρ)} {as bs cs : List Char} {v : Verdict}
  {e : Rejection} {best : Option Rejection}

/-- The verdict of a choice between `ps`, when those before were refused for `best` at most. -/
structure Chooses (definitions : ρ → Resolution ρ) (best : Option Rejection)
    (ps : List (Pattern ρ)) (cs : List Char) (v : Verdict) : Prop where
  splits : v.Splits cs
  reaches : ∀ input : Slice, input.Spells cs → (Plan.ofChoices input ps best).Reaches
    (Goal.Yields definitions) (v.outcome input input)

/-- A choice starts with nothing refused before. -/
lemma Chooses.firstOf (h : Chooses definitions none ps cs v) :
    (Pattern.firstOf ps).Answers definitions cs v :=
  answers_of_plan h.splits h.reaches

/-- The first alternative that is accepted is taken. -/
lemma chooses_taken (hp : p.Answers definitions cs (.taken as bs)) :
    Chooses definitions best (p :: ps) cs (.taken as bs) := by
  refine ⟨hp.splits, fun input hi => ?_⟩
  obtain ⟨taken, rest, yields, _⟩ := hp.matched hi
  refine ⟨_, yields, ?_⟩
  exact yields.unique (hp.yields input hi)

/-- One that is refused leaves the choice to the others. -/
lemma Chooses.cons (hp : p.Answers definitions cs (.refused e))
    (h : Chooses definitions (some (.further best e)) ps cs v) :
    Chooses definitions best (p :: ps) cs v :=
  ⟨h.splits, fun input hi => ⟨_, hp.rejected hi, h.reaches input hi⟩⟩

/-- When all have been refused, the furthest refusal is the answer. -/
lemma chooses_nil (h : Outcome.ofFurthest best = .rejected e) :
    Chooses definitions best [] cs (.refused e) := by
  refine ⟨trivial, fun input _ => ?_⟩
  rw [Verdict.outcome_self_refused]
  exact h

/-- `p` is refused at the very start. -/
def Declines (definitions : ρ → Resolution ρ) (p : Pattern ρ) (cs : List Char) : Prop :=
  ∃ e : Rejection, e.offset = 0 ∧ p.Answers definitions cs (.refused e)

/-- Patterns that decline do not count, as long as none was refused further on. -/
lemma Chooses.append (hp : ∀ p ∈ ps, p.Declines definitions cs)
    (hb : ∀ e ∈ best, e.offset = 0)
    (h : ∀ best : Option Rejection, (∀ e ∈ best, e.offset = 0) →
      Chooses definitions best qs cs v) : Chooses definitions best (ps ++ qs) cs v := by
  induction ps generalizing best with
  | nil => exact h best hb
  | cons p ps ih =>
    rw [List.forall_mem_cons] at hp
    obtain ⟨⟨e, he, ha⟩, hp⟩ := hp
    refine .cons ha (ih hp fun e' he' => ?_)
    cases he'
    cases best with
    | none => exact he
    | some e' =>
      rw [Rejection.further]
      split
      · exact he
      · exact hb e' rfl

/-- Nor do they count once a rejection lies further on. -/
lemma chooses_of_declines (hp : ∀ p ∈ ps, p.Declines definitions cs) (pos : 0 < e.offset) :
    Chooses definitions (some e) ps cs (.refused e) := by
  induction ps with
  | nil => exact chooses_nil (by rw [Outcome.ofFurthest, if_pos pos])
  | cons p ps ih =>
    rw [List.forall_mem_cons] at hp
    obtain ⟨⟨e', he, ha⟩, hp⟩ := hp
    refine .cons ha ?_
    rw [Rejection.further, if_neg (by omega)]
    exact ih hp

/-- The first pattern that takes the text decides, if those before decline. -/
lemma answers_firstOf (hp : ∀ p ∈ ps, p.Declines definitions cs)
    (hq : q.Answers definitions cs (.taken as bs)) :
    (firstOf (ps ++ q :: qs)).Answers definitions cs (.taken as bs) := by
  refine Chooses.firstOf (.append hp (by simp) fun best _ => ?_)
  exact chooses_taken hq

/-- A pattern that is refused further on decides, if all others decline. -/
lemma refuses_firstOf (hp : ∀ p ∈ ps, p.Declines definitions cs)
    (hq : q.Answers definitions cs (.refused e)) (pos : 0 < e.offset)
    (hqs : ∀ p ∈ qs, p.Declines definitions cs) :
    (firstOf (ps ++ q :: qs)).Answers definitions cs (.refused e) := by
  refine Chooses.firstOf (.append hp (by simp) fun best hb => .cons hq ?_)
  -- What was refused before was refused at the very start.
  have further : Rejection.further best e = e := by
    cases best with
    | none => rfl
    | some e' => rw [Rejection.further, if_pos (by rw [hb e' rfl]; exact pos)]
  rw [further]
  exact chooses_of_declines hqs pos

/-- The only pattern that does not decline decides, if it commits. -/
lemma commits_firstOf (hp : ∀ p ∈ ps, p.Declines definitions cs)
    (hq : q.Answers definitions cs v) (commits : v.Commits)
    (hqs : ∀ p ∈ qs, p.Declines definitions cs) :
    (firstOf (ps ++ q :: qs)).Answers definitions cs v := by
  cases v with
  | taken as bs => exact answers_firstOf hp hq
  | refused e => exact refuses_firstOf hp hq commits hqs

/-- Where all alternatives decline, none of them is named. -/
lemma declines_firstOf (hp : ∀ p ∈ ps, p.Declines definitions cs) :
    (firstOf ps).Answers definitions cs (.refused { cause := .noAlternative }) := by
  rw [← List.append_nil ps]
  refine Chooses.firstOf (.append hp (by simp) fun best hb => chooses_nil ?_)
  cases best with
  | none => rfl
  | some e => rw [Outcome.ofFurthest, if_neg (by rw [hb e rfl]; exact Nat.lt_irrefl 0)]; rfl

/-- If the first of two patterns is refused, the second one may still match. -/
lemma answers_firstOf_pair (hp : p.Answers definitions cs (.refused e))
    (hq : q.Answers definitions cs (.taken as bs)) :
    (firstOf [p, q]).Answers definitions cs (.taken as bs) :=
  Chooses.firstOf (.cons hp (chooses_taken hq))

/-- Of two patterns the one that gets further tells where the choice is refused. -/
lemma refuses_firstOf_pair {e' : Rejection} (hp : p.Answers definitions cs (.refused e))
    (hq : q.Answers definitions cs (.refused e')) (le : e.offset ≤ e'.offset) :
    ∃ e'' : Rejection, (firstOf [p, q]).Answers definitions cs (.refused e'') ∧
      e''.offset = e'.offset := by
  obtain ⟨best, hb, hbest⟩ : ∃ best, best = Rejection.further (some e) e' ∧
      best.offset = e'.offset := by
    refine ⟨_, rfl, ?_⟩
    rw [Rejection.further]
    split
    · rfl
    · omega
  -- A rejection at the very start is worded anew, at the same place.
  by_cases pos : 0 < best.offset
  · refine ⟨best, Chooses.firstOf (.cons hp (.cons hq (chooses_nil ?_))), hbest⟩
    show Outcome.ofFurthest (some (Rejection.further (some e) e')) = _
    rw [← hb, Outcome.ofFurthest, if_pos pos]
  · refine ⟨{ cause := .noAlternative }, Chooses.firstOf (.cons hp (.cons hq (chooses_nil ?_))),
      by simp only; omega⟩
    show Outcome.ofFurthest (some (Rejection.further (some e) e')) = _
    rw [← hb, Outcome.ofFurthest, if_neg pos]
    rfl

/-- A character test declines what it does not accept. -/
lemma declines_satisfy {accepts : Char → Bool} (h : ∀ c ∈ cs.head?, accepts c = false) :
    (satisfy accepts : Pattern ρ).Declines definitions cs := by
  obtain ⟨cause, ha⟩ := refuses_satisfy definitions h
  exact ⟨_, rfl, ha⟩

/-- So does a character anything else. -/
lemma declines_char {d : Char} (h : ∀ c ∈ cs.head?, c ≠ d) :
    (char d : Pattern ρ).Declines definitions cs :=
  declines_satisfy fun c hc => beq_eq_false_iff_ne.2 (h c hc)

/-- A literal declines what does not start with it. -/
lemma declines_literal {text : String} (h : ¬ text.toList <+: cs) :
    (literal text : Pattern ρ).Declines definitions cs := by
  obtain ⟨cause, ha⟩ := refuses_literal definitions h
  exact ⟨_, rfl, ha⟩

/-- A sequence declines where its first part does. -/
lemma Declines.concat (h : p.Declines definitions cs) :
    (Pattern.concat (p :: ps)).Declines definitions cs := by
  obtain ⟨e, he, ha⟩ := h
  exact ⟨e, he, (Course.refuses_parts_cons ha ps).concat⟩

/-- A sequence declines where its second part does, if the first one takes nothing. -/
lemma Declines.concat_of_taken_nil {p' : Pattern ρ} (hp : p'.Answers definitions cs (.taken [] cs))
    (h : p.Declines definitions cs) : (Pattern.concat (p' :: p :: ps)).Declines definitions cs := by
  obtain ⟨e, he, ha⟩ := h
  refine ⟨e, he, Course.Answers.concat ?_⟩
  have refused := Course.answers_parts_cons hp (Course.refuses_parts_cons ha ps)
  rwa [Verdict.behind_nil] at refused

/-- A context makes no difference to that. -/
lemma Declines.context (h : p.Declines definitions cs) (name : String) :
    (Pattern.context p name).Declines definitions cs := by
  obtain ⟨e, he, ha⟩ := h
  exact ⟨e.within name, he, ha.context name⟩

/-- A rule declines where its definition does. -/
lemma Declines.refer {rule : ρ} (hr : definitions rule = .defined p)
    (h : p.Declines definitions cs) : (Pattern.refer rule).Declines definitions cs := by
  obtain ⟨e, he, ha⟩ := h
  exact ⟨e, he, ha.refer hr⟩

/-- A choice declines where all alternatives do. -/
lemma Declines.firstOf (h : ∀ p ∈ ps, p.Declines definitions cs) :
    (Pattern.firstOf ps).Declines definitions cs :=
  ⟨_, rfl, declines_firstOf h⟩

end Pattern

end Recognizer
