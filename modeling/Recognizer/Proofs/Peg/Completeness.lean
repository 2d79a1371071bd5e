import Recognizer.Proofs.Peg.Soundness

/-!
# Derivations are answered

Whatever the parsing expression of a pattern derives, the pattern answers
(`Pattern.PegOver.meets`). The induction is on the depth of the derivation, and within a depth on
the pattern. Loops get shorter texts from round to round.
-/

namespace Recognizer

open Peg

variable {ρ : Type} {definitions : ρ → Resolution ρ} {good : ρ → Prop} {depth : Nat}

/-- Another reason for a failure leaves it a failure. -/
lemma Verdict.result_mapRejection (v : Verdict) (f : Rejection → Rejection) :
    (v.mapRejection f).result = v.result := by
  cases v <;> rfl

namespace Pattern

/-- A pattern answers by a verdict with this result. -/
def Gives (definitions : ρ → Resolution ρ) (p : Pattern ρ) (cs : List Char) (r : Result) : Prop :=
  ∃ v : Verdict, v.result = r ∧ p.Answers definitions cs v

/-- What is derived within the depth is answered. -/
def Meets (definitions : ρ → Resolution ρ) (depth : Nat) (p : Pattern ρ) : Prop :=
  ∀ {cs r}, DerivesWithin (grammar definitions) depth p.expr cs r → p.Gives definitions cs r

end Pattern

/-- The way of going on answers by a verdict with this result. -/
def Course.Gives (definitions : ρ → Resolution ρ) (c : Course ρ) (cs : List Char) (r : Result) :
    Prop :=
  ∃ v : Verdict, v.result = r ∧ c.Answers definitions cs v

variable {p q : Pattern ρ} {ps : List (Pattern ρ)} {as bs cs : List Char} {r : Result}

/-- A pattern that gives a success matches. -/
lemma Pattern.Gives.taken (h : p.Gives definitions cs (.taken as bs)) :
    p.Answers definitions cs (.taken as bs) := by
  obtain ⟨v, hv, h⟩ := h
  cases v with
  | taken as' bs' =>
    cases hv
    exact h
  | refused e => cases hv

/-- A pattern that gives a failure rejects, for some reason. -/
lemma Pattern.Gives.failed (h : p.Gives definitions cs .failed) :
    ∃ e, p.Answers definitions cs (.refused e) := by
  obtain ⟨v, hv, h⟩ := h
  cases v with
  | taken as bs => cases hv
  | refused e => exact ⟨e, h⟩

namespace Course

/-- The parts of a sequence give what is derived for the rest of the sequence. -/
lemma gives_parts (hp : ∀ p ∈ ps, p.Meets definitions depth)
    (h : DerivesWithin (grammar definitions) depth (Pattern.exprOfParts ps) cs r) :
    (parts ps).Gives definitions cs r := by
  induction ps generalizing cs r with
  | nil =>
    cases h with
    | empty => exact ⟨_, rfl, answers_parts_nil cs⟩
  | cons p ps ih =>
    rw [List.forall_mem_cons] at hp
    cases h with
    | seq ha hb =>
      obtain ⟨v, rfl, hv⟩ := ih hp.2 hb
      exact ⟨_, v.result_behind _, answers_parts_cons (hp.1 ha).taken hv⟩
    | seq_failed ha =>
      obtain ⟨e, he⟩ := (hp.1 ha).failed
      exact ⟨_, rfl, refuses_parts_cons he ps⟩

variable {min count : Nat} {max : Option Nat}

/-- A repetition that ends has failed if there are rounds to make. -/
lemma ofRepeated_result (min count : Nat) (cs : List Char) (stoppedBy : Option Rejection) :
    (ofRepeated min count cs stoppedBy).result =
      if min - count = 0 then .taken [] cs else .failed := by
  rw [ofRepeated]
  split
  · rw [if_pos (by omega)]
    rfl
  · rw [if_neg (by omega)]
    rfl

/-- A repetition under way gives what is derived for the rounds that are left. -/
lemma gives_repeating (hp : p.Meets definitions depth)
    (h : DerivesWithin (grammar definitions) depth
      (p.expr.between (min - count) (max.map (· - count))) cs r) :
    (repeating p min max count).Gives definitions cs r := by
  induction n : cs.length using Nat.strongRecOn generalizing cs r count with
  | ind n ih =>
  subst n
  obtain ⟨room, as, bs, r', round, more, rfl⟩ | ⟨stop, rfl⟩ := h.between_cases
  · cases round with
    | filled ne ha =>
      have taken := (hp ha).taken
      have shorter : bs.length < cs.length := length_lt_of_split taken.splits ne
      rw [Nat.sub_sub, Option.map_map] at more
      obtain ⟨v, rfl, hv⟩ := ih _ shorter more rfl
      exact ⟨_, v.result_behind as, answers_repeating_more (belowMax_iff.2 room) ne taken hv⟩
  · by_cases room : belowMax max count = true
    · cases stop.resolve_left (belowMax_iff.1 room) with
      | filled_empty ha =>
        exact ⟨_, ofRepeated_result min count cs _, repeating_idle min room (hp ha).taken⟩
      | filled_failed ha =>
        obtain ⟨e, he⟩ := (hp ha).failed
        exact ⟨_, ofRepeated_result min count cs _, repeating_refused min room he⟩
    · have full : belowMax max count = false := Bool.eq_false_iff.2 room
      exact ⟨_, ofRepeated_result min count cs _, repeating_full p min full cs⟩

/-- A scan under way gives what is derived from its place on. -/
lemma gives_scanning (hp : p.Meets definitions depth) (hq : q.Meets definitions depth)
    (h : DerivesWithin (grammar definitions) depth (.upTo p.expr q.expr) cs r) :
    (scanning p q).Gives definitions cs r := by
  induction n : cs.length using Nat.strongRecOn generalizing cs r with
  | ind n ih =>
  subst n
  obtain ⟨as, bs, r', round, more, rfl⟩ | ⟨round, hstop⟩ := h.star_seq_cases
  · cases round with
    | filled ne round =>
      obtain ⟨hstop, hcs⟩ := round.of_round
      obtain ⟨e, he⟩ := (hp hstop).failed
      have taken := (hq ((DerivesWithin.round_iff hstop hcs).1 round)).taken
      have shorter : bs.length < cs.length := length_lt_of_split taken.splits ne
      obtain ⟨v, rfl, hv⟩ := ih _ shorter more rfl
      exact ⟨_, v.result_behind as, answers_scanning_more he ne taken hv⟩
  · cases r with
    | taken as bs => exact ⟨_, rfl, answers_scanning_stop (hp hstop).taken⟩
    | failed =>
      obtain ⟨e, he⟩ := (hp hstop).failed
      by_cases hcs : cs = []
      · subst hcs
        exact ⟨_, rfl, refuses_scanning_nil he⟩
      · cases (DerivesWithin.filled_round_iff hstop hcs).1 round with
        | filled_empty ha => exact ⟨_, rfl, refuses_scanning_idle he hcs (hq ha).taken⟩
        | filled_failed ha =>
          obtain ⟨e', he'⟩ := (hq ha).failed
          exact ⟨_, rfl, refuses_scanning he hcs he'⟩

variable {trailing : Series.Trailing}

/-- A series behind its first element gives what is derived for further ones. -/
lemma gives_listing (hp : p.Meets definitions depth) (hq : q.Meets definitions depth)
    (hc : 1 ≤ count)
    (h : DerivesWithin (grammar definitions) depth (.further p.expr q.expr trailing) cs r) :
    (listing p q trailing count).Gives definitions cs r := by
  -- Each round takes something, so the induction is on the length of what is left.
  induction n : cs.length using Nat.strongRecOn generalizing cs r count with
  | ind n ih =>
  subst n
  obtain ⟨as, bs, r', round, more, rfl⟩ | ⟨round, ending⟩ := h.star_seq_cases
  · cases round with
    | filled ne round =>
      obtain ⟨xs, bs', r'', hs, he, hr⟩ | ⟨_, hr⟩ := round.seq_cases
      · cases r'' with
        | failed => cases hr
        | taken ys bs'' =>
          cases hr
          have separator := (hq hs).taken
          have element := (hp he).taken
          have shorter : bs.length < cs.length := length_lt_of_split round.splits ne
          obtain ⟨v, rfl, hv⟩ := ih _ shorter (Nat.le_add_left 1 count) more rfl
          refine ⟨_, ?_, answers_listing_more separator element ne hv⟩
          rw [Verdict.result_behind, Verdict.result_behind, Result.behind_behind]
      · cases hr
  · cases round with
    -- A round that is derived but takes nothing: both of its parts match nothing.
    | filled_empty round =>
      obtain ⟨xs, bs', r'', hs, he, hr⟩ | ⟨_, hr⟩ := round.seq_cases
      · cases r'' with
        | failed => cases hr
        | taken ys bs'' =>
          obtain ⟨hnil, rfl⟩ := Result.taken.inj hr
          obtain ⟨rfl, rfl⟩ := List.append_eq_nil_iff.1 hnil.symm
          cases ending.unique (.ending (.filled_empty hs))
          exact ⟨_, rfl, answers_listing_idle hc (hq hs).taken (hp he).taken⟩
      · cases hr
    | filled_failed round =>
      obtain ⟨xs, bs', r'', hs, he, hr⟩ | ⟨hs, _⟩ := round.seq_cases
      · cases r'' with
        | taken ys bs'' => cases hr
        | failed =>
          obtain ⟨e, refused⟩ := (hp he).failed
          -- The element fails behind a separator, which counts only if it has taken something.
          by_cases nil : xs = []
          · subst nil
            cases ending.unique (.ending (.filled_empty hs))
            exact ⟨_, rfl, answers_listing_bare hc (hq hs).taken refused⟩
          · cases trailing with
            | forbidden =>
              cases ending.unique (.not_failed (.filled nil hs))
              exact ⟨_, rfl, refuses_listing (hq hs).taken nil refused⟩
            | allowed =>
              cases ending.unique (.choice (.filled nil hs))
              exact ⟨_, rfl, answers_listing_trailing hc (hq hs).taken nil refused⟩
      · obtain ⟨e, refused⟩ := (hq hs).failed
        cases ending.unique (.ending (.filled_failed hs))
        exact ⟨_, rfl, answers_listing_stop hc refused⟩

end Course

namespace Pattern

/-- A choice under way gives what is derived for the choices that are left. -/
lemma gives_choices (hp : ∀ p ∈ ps, p.Meets definitions depth)
    (h : DerivesWithin (grammar definitions) depth (exprOfChoices ps) cs r)
    (best : Option Rejection) : ∃ v : Verdict, v.result = r ∧ Chooses definitions best ps cs v := by
  induction ps generalizing best with
  | nil =>
    cases h with
    | fail =>
      obtain ⟨e, he, _⟩ := Outcome.exists_ofFurthest best
      exact ⟨_, rfl, chooses_nil he⟩
  | cons p ps ih =>
    rw [List.forall_mem_cons] at hp
    cases h with
    | choice ha => exact ⟨_, rfl, chooses_taken (hp.1 ha).taken⟩
    | choice_next ha hb =>
      obtain ⟨e, he⟩ := (hp.1 ha).failed
      obtain ⟨v, hv, hc⟩ := ih hp.2 hb _
      exact ⟨v, hv, .cons he hc⟩

/-- A pattern under a condition gives what is derived, if both patterns do. -/
lemma meets_implies (hp : p.Meets definitions depth) (hq : q.Meets definitions depth) :
    (Pattern.implies p q).Meets definitions depth := by
  intro cs r h
  cases h with
  | choice h =>
    obtain ⟨as, bs, r', ha, hb, hr⟩ | ⟨_, hr⟩ := h.seq_cases
    · obtain ⟨v, rfl, hv⟩ := hq hb
      exact ⟨_, (v.result_behind as).trans hr.symm, answers_implies (hp ha).taken hv⟩
    · cases hr
  | choice_next h hn =>
    cases hn with
    | not ha =>
      obtain ⟨e, he⟩ := (hp ha).failed
      exact ⟨_, rfl, answers_implies_of_refused he q⟩
    | not_failed ha =>
      obtain ⟨as, bs, r', ha', hb, hr⟩ | ⟨ha', _⟩ := h.seq_cases
      · obtain ⟨v, rfl, hv⟩ := hq hb
        exact ⟨_, (v.result_behind as).trans hr.symm, answers_implies (hp ha').taken hv⟩
      · cases ha.unique ha'

/-- Patterns meet their expressions within a depth if the references in them do. -/
lemma PegOver.meets_of_refer (hr : ∀ rule, good rule → (Pattern.refer rule).Meets definitions depth)
    (hp : p.PegOver good) : p.Meets definitions depth := by
  induction hp with
  | satisfy accepts =>
    intro cs r h
    cases h with
    | char hc => exact ⟨_, rfl, answers_satisfy hc _⟩
    | char_failed hf =>
      obtain ⟨cause, ha⟩ := refuses_satisfy definitions hf
      exact ⟨_, rfl, ha⟩
  | literal text =>
    intro cs r h
    cases h with
    | literal hc =>
      subst hc
      exact ⟨_, rfl, answers_literal text _⟩
    | literal_failed hf =>
      obtain ⟨cause, ha⟩ := refuses_literal definitions hf
      exact ⟨_, rfl, ha⟩
  | endOfInput =>
    intro cs r h
    cases h with
    | endOfInput => exact ⟨_, rfl, answers_endOfInput⟩
    | endOfInput_failed ne => exact ⟨_, rfl, refuses_endOfInput ne⟩
  | concat _ ih =>
    intro cs r h
    obtain ⟨v, hv, ha⟩ := Course.gives_parts ih h
    exact ⟨v, hv, ha.concat⟩
  | firstOf _ ih =>
    intro cs r h
    obtain ⟨v, hv, ha⟩ := gives_choices ih h none
    exact ⟨v, hv, ha.firstOf⟩
  | optional _ ih =>
    intro cs r h
    cases h with
    | choice ha => exact ⟨_, rfl, answers_optional (ih ha).taken⟩
    | choice_next ha he =>
      obtain ⟨e, refused⟩ := (ih ha).failed
      cases he with
      | empty => exact ⟨_, rfl, answers_optional_of_refused refused⟩
  | implies _ _ ihc ihq => exact meets_implies ihc ihq
  | @repeated body min max _ ih =>
    intro cs r h
    have rounds : DerivesWithin (grammar definitions) depth
        (body.expr.between (min - 0) (max.map (· - 0))) cs r := by
      simp only [Nat.sub_zero, Option.map_id']
      exact h
    obtain ⟨v, hv, ha⟩ := Course.gives_repeating ih rounds
    exact ⟨v, hv, ha.repeated⟩
  | scan _ _ ihs ihb =>
    intro cs r h
    obtain ⟨v, hv, ha⟩ := Course.gives_scanning ihs ihb h
    exact ⟨v, hv, ha.scan⟩
  | @series _ separator trailing _ _ ihe ihs =>
    intro cs r h
    obtain ⟨as, bs, r', he, more, rfl⟩ | ⟨he, rfl⟩ := h.seq_cases
    · obtain ⟨v, rfl, ha⟩ := Course.gives_listing ihe ihs (Nat.le_refl 1) more
      exact ⟨_, v.result_behind as, Course.answers_series (ihe he).taken ha⟩
    · obtain ⟨e, refused⟩ := (ihe he).failed
      exact ⟨_, rfl, Course.refuses_series refused separator trailing⟩
  | label message _ ih =>
    intro cs r h
    obtain ⟨v, rfl, ha⟩ := ih h
    exact ⟨_, v.result_mapRejection _, ha.label message⟩
  | context name _ ih =>
    intro cs r h
    obtain ⟨v, rfl, ha⟩ := ih h
    exact ⟨_, v.result_mapRejection _, ha.context name⟩
  | refer hg => exact hr _ hg

/-- Patterns meet their expressions, as long as the definitions of good rules can be said by
parsing expressions. -/
theorem PegOver.meets
    (hd : ∀ rule p, good rule → definitions rule = .defined p → p.PegOver good)
    (hp : p.PegOver good) (depth : Nat) : p.Meets definitions depth := by
  -- A reference needs one level more than the definition of its rule.
  induction depth generalizing p with
  | zero =>
    refine hp.meets_of_refer fun rule _ cs r h => ?_
    cases h
  | succ depth ih =>
    refine hp.meets_of_refer fun rule hg cs r h => ?_
    cases h with
    | rule h =>
      rw [grammar] at h
      cases hr : definitions rule with
      | defined p =>
        rw [hr] at h
        obtain ⟨v, hv, ha⟩ := ih (hd rule p hg hr) h
        exact ⟨v, hv, ha.refer hr⟩
      | undefined name =>
        rw [hr] at h
        cases h with
        | fail => exact ⟨_, rfl, refuses_undefined hr cs⟩
      | dropped =>
        rw [hr] at h
        cases h with
        | fail => exact ⟨_, rfl, refuses_dropped hr cs⟩

end Pattern

end Recognizer
