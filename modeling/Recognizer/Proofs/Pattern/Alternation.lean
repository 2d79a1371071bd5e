import Mathlib.Data.List.Forall2
import Recognizer.Proofs.Pattern.Loops

/-!
# Alternatives and their rejections

A choice comes to the first match among its alternatives. If all of them reject, it keeps the
earliest of the rejections that got furthest, unless none got beyond the start. Taking the further
of two rejections is associative, also if those at the start do not count
(`Rejection.settled_ahead`), so that it does not matter how the alternatives are grouped
(`Goal.yields_firstOf_iff`).
-/

namespace Recognizer

variable {ρ : Type} {definitions : ρ → Resolution ρ} {input : Slice} {o : Outcome}

namespace Rejection

variable {best : Option Rejection} {e e' : Rejection} {es es' : List Rejection}

/-- The further of two rejections, if there are any, and the first one if they got equally far. -/
def ahead : Option Rejection → Option Rejection → Option Rejection
  | best, none => best
  | best, some e => some (further best e)

/-- The rejection that is kept of several ones. -/
def furthest (es : List Rejection) : Option Rejection :=
  es.foldl (fun best e => some (further best e)) none

/-- What is left of a rejection if one at the start does not count. -/
def settled (best : Option Rejection) : Option Rejection :=
  best.filter (0 < ·.offset)

/-- A rejection further on counts. -/
lemma settled_of_pos (h : 0 < e.offset) : settled (some e) = some e :=
  Option.filter_some_pos (decide_eq_true h)

/-- One at the start does not. -/
lemma settled_of_start (h : ¬ 0 < e.offset) : settled (some e) = none :=
  Option.filter_some_neg (decide_eq_false h)

/-- Where nothing else was rejected, the best stays. -/
lemma ahead_none (best : Option Rejection) : ahead best none = best := rfl

/-- Where nothing was rejected before, the new one is taken. -/
lemma none_ahead (best : Option Rejection) : ahead none best = best := by
  cases best with
  | none => rfl
  | some e => rfl

/-- Of two rejections the later one is taken only if it got further. -/
lemma some_ahead_some (e e' : Rejection) :
    ahead (some e) (some e') = if e.offset < e'.offset then some e' else some e :=
  apply_ite some _ _ _

/-- Of three rejections, the furthest one is found in any grouping. -/
lemma ahead_assoc (a b c : Option Rejection) : ahead (ahead a b) c = ahead a (ahead b c) := by
  cases a with
  | none => rw [none_ahead, none_ahead]
  | some a =>
    cases b with
    | none => rw [ahead_none, none_ahead]
    | some b =>
      cases c with
      | none => rfl
      | some c => grind [some_ahead_some]

/-- Those at the start may be left out before or after. -/
lemma settled_ahead (a b : Option Rejection) :
    settled (ahead a b) = ahead (settled a) (settled b) := by
  cases a with
  | none =>
    rw [none_ahead]
    exact (none_ahead _).symm
  | some a =>
    cases b with
    | none => rfl
    | some b => grind [some_ahead_some, settled, none_ahead, ahead_none, Option.filter]

/-- Going on from a rejection is comparing it with what comes after. -/
lemma foldl_further (best : Option Rejection) (es : List Rejection) :
    es.foldl (fun best e => some (further best e)) best = ahead best (furthest es) := by
  induction es generalizing best with
  | nil => rfl
  | cons e es ih =>
    have first : furthest (e :: es) = ahead (some e) (furthest es) := ih (some e)
    rw [List.foldl_cons, ih, first, ← ahead_assoc]
    rfl

/-- The first rejection is compared with the furthest of the others. -/
lemma furthest_cons (e : Rejection) (es : List Rejection) :
    furthest (e :: es) = ahead (some e) (furthest es) :=
  foldl_further (some e) es

/-- The furthest of all is the further one of the two parts. -/
lemma furthest_append (es es' : List Rejection) :
    furthest (es ++ es') = ahead (furthest es) (furthest es') := by
  rw [furthest, List.foldl_append]
  exact foldl_further (furthest es) es'

/-- The furthest rejection is one of them. -/
lemma mem_of_furthest (h : furthest es = some e) : e ∈ es := by
  induction es generalizing e with
  | nil => cases h
  | cons x es ih =>
    rw [furthest_cons] at h
    cases hf : furthest es with
    | none =>
      rw [hf, ahead_none] at h
      cases h
      exact List.mem_cons_self
    | some e' =>
      rw [hf, some_ahead_some] at h
      split at h
      · cases h
        exact List.mem_cons_of_mem x (ih hf)
      · cases h
        exact List.mem_cons_self

/-- The rejection is the earliest one of those that got furthest. -/
def Foremost (e : Rejection) (es : List Rejection) : Prop :=
  ∃ before after, es = before ++ e :: after ∧ (∀ e' ∈ before, e'.offset < e.offset) ∧
    ∀ e' ∈ after, e'.offset ≤ e.offset

/-- The foremost rejection got as far as any. -/
lemma Foremost.le (h : e.Foremost es) : ∀ e' ∈ es, e'.offset ≤ e.offset := by
  obtain ⟨before, after, rfl, lt, le⟩ := h
  rw [List.forall_mem_append, List.forall_mem_cons]
  exact ⟨fun e' h => Nat.le_of_lt (lt e' h), Nat.le_refl _, le⟩

/-- One of some rejections is the foremost. -/
lemma exists_foremost (e : Rejection) (es : List Rejection) : ∃ e', Foremost e' (e :: es) := by
  induction es generalizing e with
  | nil => exact ⟨e, [], [], rfl, nofun, nofun⟩
  | cons x es ih =>
    obtain ⟨e', foremost⟩ := ih x
    by_cases lt : e.offset < e'.offset
    · obtain ⟨before, after, split, before_lt, after_le⟩ := foremost
      rw [split]
      exact ⟨e', e :: before, after, rfl, List.forall_mem_cons.2 ⟨lt, before_lt⟩, after_le⟩
    · refine ⟨e, [], x :: es, rfl, nofun, fun e'' h => ?_⟩
      exact Nat.le_trans (foremost.le e'' h) (Nat.le_of_not_lt lt)

/-- The foremost rejection is the one that is kept. -/
lemma Foremost.furthest_eq (h : e.Foremost es) : furthest es = some e := by
  obtain ⟨before, after, rfl, lt, le⟩ := h
  have behind : furthest (e :: after) = some e := by
    rw [furthest_cons]
    cases hf : furthest after with
    | none => rfl
    | some e' => rw [some_ahead_some, if_neg (Nat.not_lt.2 (le e' (mem_of_furthest hf)))]
  rw [furthest_append, behind]
  cases hf : furthest before with
  | none => rfl
  | some e' => rw [some_ahead_some, if_pos (lt e' (mem_of_furthest hf))]

/-- What is kept is nothing of none, and the foremost of some. -/
lemma furthest_cases (es : List Rejection) :
    (es = [] ∧ furthest es = none) ∨ ∃ e, e.Foremost es ∧ furthest es = some e := by
  cases es with
  | nil => exact .inl ⟨rfl, rfl⟩
  | cons e es =>
    obtain ⟨e', foremost⟩ := exists_foremost e es
    exact .inr ⟨e', foremost, foremost.furthest_eq⟩

end Rejection

namespace Outcome

open Rejection

/-- The answer is the same whether rejections at the start are dropped before or not. -/
lemma ofFurthest_settled (best : Option Rejection) :
    ofFurthest (settled best) = ofFurthest best := by
  cases best with
  | none => rfl
  | some e =>
    by_cases pos : 0 < e.offset
    · rw [settled_of_pos pos]
    · rw [settled_of_start pos, ofFurthest, ofFurthest, if_neg pos]

/-- What a choice rejects for counts as much as what it has kept. -/
lemma settled_of_ofFurthest {best : Option Rejection} {e : Rejection}
    (h : ofFurthest best = .rejected e) : settled (some e) = settled best := by
  cases best with
  | none =>
    cases h
    rfl
  | some e' =>
    rw [ofFurthest] at h
    split at h
    · cases h
      rfl
    · next start =>
      cases h
      rw [settled_of_start start]
      rfl

end Outcome

/-- The pattern rejects the input in this way. -/
def Rejection.IsOf (definitions : ρ → Resolution ρ) (input : Slice) (e : Rejection)
    (p : Pattern ρ) : Prop :=
  (Goal.apply p input).Yields definitions (.rejected e)

/-- The outcomes of a choice, in terms of those of its alternatives. -/
inductive Pattern.Selects (definitions : ρ → Resolution ρ) (choices : List (Pattern ρ))
    (input : Slice) : Outcome → Prop where
  /-- The first match. -/
  | matched {before : List (Pattern ρ)} {p : Pattern ρ} {after : List (Pattern ρ)}
    {consumed remainder : Slice} : choices = before ++ p :: after →
    (∀ q ∈ before, ∃ e : Rejection, e.IsOf definitions input q) →
    (Goal.apply p input).Yields definitions (.matched consumed remainder) →
    Selects definitions choices input (.matched consumed remainder)
  /-- The earliest of the rejections that got furthest, as it is, if it got beyond the start. -/
  | furthest {es : List Rejection} {e : Rejection} :
    List.Forall₂ (Rejection.IsOf definitions input) es choices → e.Foremost es → 0 < e.offset →
    Selects definitions choices input (.rejected e)
  /-- A rejection of its own, if none got beyond the start. -/
  | start {es : List Rejection} : List.Forall₂ (Rejection.IsOf definitions input) es choices →
    (∀ e ∈ es, e.offset = 0) →
    Selects definitions choices input
      (.rejected { cause := .noAlternative, offset := 0, context := none })

namespace Pattern

open Rejection

variable {ps qs choices : List (Pattern ρ)} {es : List Rejection} {best : Option Rejection}

/-- One of the patterns matches, and all before it reject. -/
inductive FirstMatch (definitions : ρ → Resolution ρ) (input : Slice) :
    List (Pattern ρ) → Outcome → Prop where
  | here {p : Pattern ρ} {consumed remainder : Slice} (ps : List (Pattern ρ)) :
    (Goal.apply p input).Yields definitions (.matched consumed remainder) →
    FirstMatch definitions input (p :: ps) (.matched consumed remainder)
  | later {p : Pattern ρ} {e : Rejection} {ps : List (Pattern ρ)} {o : Outcome} :
    e.IsOf definitions input p → FirstMatch definitions input ps o →
    FirstMatch definitions input (p :: ps) o

/-- All patterns reject, and this is kept of their rejections. -/
def Keeps (definitions : ρ → Resolution ρ) (input : Slice) (ps : List (Pattern ρ))
    (best : Option Rejection) : Prop :=
  ∃ es, List.Forall₂ (IsOf definitions input) es ps ∧ best = settled (furthest es)

/-- What comes behind the first match does not matter. -/
lemma FirstMatch.append (h : FirstMatch definitions input ps o) (qs : List (Pattern ρ)) :
    FirstMatch definitions input (ps ++ qs) o := by
  induction h with
  | here ps yields => exact .here (ps ++ qs) yields
  | later rejected _ ih => exact .later rejected ih

/-- What rejects before the first match does not matter either. -/
lemma FirstMatch.behind (h : FirstMatch definitions input qs o)
    (all : List.Forall₂ (IsOf definitions input) es ps) :
    FirstMatch definitions input (ps ++ qs) o := by
  induction all with
  | nil => exact h
  | cons rejected _ ih => exact .later rejected ih

/-- The first match is in the first part, or in the second if the first part rejects. -/
lemma firstMatch_append_iff : FirstMatch definitions input (ps ++ qs) o ↔
    FirstMatch definitions input ps o ∨
      (∃ best, Keeps definitions input ps best) ∧ FirstMatch definitions input qs o := by
  constructor
  · intro h
    induction ps with
    | nil => exact .inr ⟨⟨none, [], .nil, rfl⟩, h⟩
    | cons p ps ih =>
      cases h with
      | here _ yields => exact .inl (.here ps yields)
      | later rejected first =>
        obtain first | ⟨⟨_, es, all, _⟩, first⟩ := ih first
        · exact .inl (.later rejected first)
        · exact .inr ⟨⟨_, _, .cons rejected all, rfl⟩, first⟩
  · rintro (first | ⟨⟨_, es, all, _⟩, first⟩)
    · exact first.append qs
    · exact first.behind all

/-- What is kept of two parts is the further of what is kept of each. -/
lemma keeps_append_iff : Keeps definitions input (ps ++ qs) best ↔
    ∃ a b, Keeps definitions input ps a ∧ Keeps definitions input qs b ∧ best = ahead a b := by
  constructor
  · rintro ⟨es, all, rfl⟩
    have first := List.forall₂_take_append es ps qs all
    have second := List.forall₂_drop_append es ps qs all
    refine ⟨_, _, ⟨_, first, rfl⟩, ⟨_, second, rfl⟩, ?_⟩
    rw [← settled_ahead, ← furthest_append, List.take_append_drop]
  · rintro ⟨_, _, ⟨es, first, rfl⟩, ⟨es', second, rfl⟩, rfl⟩
    refine ⟨es ++ es', List.rel_append first second, ?_⟩
    rw [furthest_append, settled_ahead]

/-- What a choice comes to if `best` has been kept of the alternatives before. -/
lemma ofChoices_reaches_iff :
    (Plan.ofChoices input ps best).Reaches (Goal.Yields definitions) o ↔
      FirstMatch definitions input ps o ∨
        ∃ es, List.Forall₂ (IsOf definitions input) es ps ∧
          o = .ofFurthest (ahead best (furthest es)) := by
  -- The rejection kept so far changes along the list, so the statement is about any of them.
  induction ps generalizing best with
  | nil =>
    constructor
    · intro h
      exact .inr ⟨[], .nil, h.symm⟩
    · rintro (first | ⟨es, all, rfl⟩)
      · cases first
      · cases all
        exact rfl
  | cons p ps ih =>
    constructor
    · rintro ⟨o', yields, h⟩
      cases o' with
      | matched consumed remainder =>
        cases h
        exact .inl (.here ps yields)
      | rejected e =>
        obtain first | ⟨es, all, rfl⟩ := ih.1 h
        · exact .inl (.later yields first)
        · refine .inr ⟨e :: es, .cons yields all, ?_⟩
          rw [furthest_cons, ← ahead_assoc]
          rfl
    · rintro (first | ⟨es, all, rfl⟩)
      · cases first with
        | here _ yields => exact ⟨_, yields, rfl⟩
        | later rejected first => exact ⟨_, rejected, ih.2 (.inl first)⟩
      · cases all with
        | cons rejected all =>
          refine ⟨_, rejected, ih.2 (.inr ⟨_, all, ?_⟩)⟩
          rw [furthest_cons, ← ahead_assoc]
          rfl

/-- It does not matter for the outcome that rejections at the start are dropped. -/
lemma yields_firstOf_iff_keeps : (Goal.apply (.firstOf choices) input).Yields definitions o ↔
    FirstMatch definitions input choices o ∨
      ∃ best, Keeps definitions input choices best ∧ o = .ofFurthest best := by
  rw [Goal.yields_iff, Goal.plan, Pattern.plan, ofChoices_reaches_iff]
  refine or_congr_right ⟨?_, ?_⟩
  · rintro ⟨es, all, rfl⟩
    refine ⟨_, ⟨es, all, rfl⟩, ?_⟩
    rw [none_ahead, Outcome.ofFurthest_settled]
  · rintro ⟨_, ⟨es, all, rfl⟩, rfl⟩
    refine ⟨es, all, ?_⟩
    rw [none_ahead, Outcome.ofFurthest_settled]

/-- A first match has patterns before it that all reject. -/
lemma FirstMatch.exists_split (h : FirstMatch definitions input choices o) :
    ∃ before p after consumed remainder, choices = before ++ p :: after ∧
      (∀ q ∈ before, ∃ e : Rejection, e.IsOf definitions input q) ∧
      (Goal.apply p input).Yields definitions (.matched consumed remainder) ∧
      o = .matched consumed remainder := by
  induction h with
  | here ps yields => exact ⟨[], _, ps, _, _, rfl, nofun, yields, rfl⟩
  | @later p e _ _ rejected _ ih =>
    obtain ⟨before, q, after, consumed, remainder, rfl, all, yields, rfl⟩ := ih
    have all : ∀ q ∈ p :: before, ∃ e : Rejection, e.IsOf definitions input q :=
      List.forall_mem_cons.2 ⟨⟨e, rejected⟩, all⟩
    exact ⟨p :: before, q, after, consumed, remainder, rfl, all, yields, rfl⟩

/-- A match behind patterns that reject is the first. -/
lemma firstMatch_of_split {before after : List (Pattern ρ)} {p : Pattern ρ}
    {consumed remainder : Slice}
    (all : ∀ q ∈ before, ∃ e : Rejection, e.IsOf definitions input q)
    (yields : (Goal.apply p input).Yields definitions (.matched consumed remainder)) :
    FirstMatch definitions input (before ++ p :: after) (.matched consumed remainder) := by
  induction before with
  | nil => exact .here after yields
  | cons q before ih =>
    obtain ⟨⟨e, rejected⟩, all⟩ := List.forall_mem_cons.1 all
    exact .later rejected (ih all)

/-- What is kept of all rejections is the answer of the choice. -/
lemma Keeps.selects (h : Keeps definitions input choices best) :
    Selects definitions choices input (.ofFurthest best) := by
  obtain ⟨es, all, rfl⟩ := h
  rw [Outcome.ofFurthest_settled]
  obtain ⟨rfl, none⟩ | ⟨e, foremost, some⟩ := furthest_cases es
  · rw [none]
    exact .start all nofun
  · rw [some, Outcome.ofFurthest]
    split
    · next pos => exact .furthest all foremost pos
    · next start =>
      refine .start all fun e' he => ?_
      have le := foremost.le e' he
      omega

/-- A choice comes to what it selects, and to nothing else. -/
lemma yields_firstOf_iff_selects : (Goal.apply (.firstOf choices) input).Yields definitions o ↔
    Selects definitions choices input o := by
  rw [yields_firstOf_iff_keeps]
  constructor
  · rintro (first | ⟨best, keeps, rfl⟩)
    · obtain ⟨before, p, after, consumed, remainder, split, rejected, yields, rfl⟩ :=
        first.exists_split
      exact .matched split rejected yields
    · exact keeps.selects
  · intro h
    cases h with
    | matched split all yields =>
      rw [split]
      exact .inl (firstMatch_of_split all yields)
    | @furthest es e all foremost pos =>
      refine .inr ⟨_, ⟨es, all, rfl⟩, ?_⟩
      rw [foremost.furthest_eq, settled_of_pos pos, Outcome.ofFurthest, if_pos pos]
    | @start es all start =>
      refine .inr ⟨_, ⟨es, all, rfl⟩, ?_⟩
      obtain ⟨_, none⟩ | ⟨e, _, some⟩ := furthest_cases es
      · rw [none]
        rfl
      · have zero : ¬ 0 < e.offset := Nat.not_lt.2 (Nat.le_of_eq (start e (mem_of_furthest some)))
        rw [some, settled_of_start zero]
        rfl

/-- A choice has its first match where its alternatives have it. -/
lemma firstMatch_firstOf_iff : FirstMatch definitions input [.firstOf ps] o ↔
    FirstMatch definitions input ps o := by
  constructor
  · intro h
    cases h with
    | later _ first => cases first
    | here _ yields =>
      obtain first | ⟨best, _, rejected⟩ := yields_firstOf_iff_keeps.1 yields
      · exact first
      · obtain ⟨e, he, _⟩ := Outcome.exists_ofFurthest best
        cases rejected.trans he
  · intro first
    obtain ⟨_, _, _, _, _, _, _, _, rfl⟩ := first.exists_split
    exact .here [] (yields_firstOf_iff_keeps.2 (.inl first))

/-- A choice that rejects counts for as much as all its alternatives. -/
lemma keeps_firstOf_iff : Keeps definitions input [.firstOf ps] best ↔
    Keeps definitions input ps best := by
  constructor
  · rintro ⟨es, all, rfl⟩
    cases all with
    | cons rejected all =>
      cases all
      obtain first | ⟨best, ⟨es, all, rfl⟩, eq⟩ := yields_firstOf_iff_keeps.1 rejected
      · obtain ⟨_, _, _, _, _, _, _, _, matched⟩ := first.exists_split
        cases matched
      · rw [Outcome.ofFurthest_settled] at eq
        exact ⟨es, all, Outcome.settled_of_ofFurthest eq.symm⟩
  · rintro ⟨es, all, rfl⟩
    obtain ⟨e, he, _⟩ := Outcome.exists_ofFurthest (furthest es)
    have rejected : e.IsOf definitions input (.firstOf ps) := by
      refine yields_firstOf_iff_keeps.2 (.inr ⟨_, ⟨es, all, rfl⟩, ?_⟩)
      rw [Outcome.ofFurthest_settled, he]
    exact ⟨[e], .cons rejected .nil, (Outcome.settled_of_ofFurthest he).symm⟩

end Pattern

/-- A choice yields the first match among its alternatives; where all reject, the earliest of the
rejections that got furthest, unchanged, if it got beyond the start, and a rejection of its own
otherwise. A choice among the alternatives may be replaced by its own alternatives. -/
theorem Goal.yields_firstOf_iff (definitions : ρ → Resolution ρ) (input : Slice) (o : Outcome) :
    (∀ choices, (Goal.apply (.firstOf choices) input).Yields definitions o ↔
      Pattern.Selects definitions choices input o) ∧
    ∀ xs ys zs, (Goal.apply (.firstOf (xs ++ [.firstOf ys] ++ zs)) input).Yields definitions o ↔
      (Goal.apply (.firstOf (xs ++ ys ++ zs)) input).Yields definitions o := by
  refine ⟨fun choices => Pattern.yields_firstOf_iff_selects, fun xs ys zs => ?_⟩
  simp only [Pattern.yields_firstOf_iff_keeps, Pattern.firstMatch_append_iff,
    Pattern.keeps_append_iff, Pattern.firstMatch_firstOf_iff, Pattern.keeps_firstOf_iff]

/-- The second of two rejections at the same place is not reported, and a choice in between that got
nowhere has no say. -/
example : (Goal.apply (.firstOf [.reject { cause := .stated "a", offset := 1 }, .firstOf [],
    .reject { cause := .stated "b", offset := 1 }]) (.whole 0 ['x'])).run
    (fun _ : Unit => .dropped) 3 = some (.rejected { cause := .stated "a", offset := 1 }) := by
  rfl

end Recognizer
