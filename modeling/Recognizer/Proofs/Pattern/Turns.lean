import Recognizer.Proofs.Pattern.Elements

/-!
# How often loops are gone through

A repetition, a scan and a series go through a loop of their own. If their parts split what they are
given and always come to an outcome, each turn of the loop either ends it or leaves less than there
was (`Goal.Looping.advances`), whether it is the body that has to consume something or a separator
and an element together. So there are at most as many turns as there are bytes, and one more
(`Pattern.loops_endWithin`).
-/

namespace Recognizer

open Text

variable {ρ : Type} {definitions : ρ → Resolution ρ} {input rest s s' c : Slice} {o o' : Outcome}
  {t cs : List Char} {n : Nat} {g : Goal ρ} {plan : Plan ρ}

/-- The pattern comes to an outcome on every text. -/
def Pattern.Total (definitions : ρ → Resolution ρ) (p : Pattern ρ) : Prop :=
  ∀ input t, input.Spells t → ∃ o, (Goal.apply p input).Yields definitions o

/-- A character test always comes to an outcome. -/
lemma Pattern.total_satisfy (definitions : ρ → Resolution ρ) (accepts : Char → Bool) :
    (satisfy accepts).Total definitions :=
  fun _ _ _ => ⟨_, Goal.yields_iff.2 rfl⟩

/-- So does an optional pattern if its body does. -/
lemma Pattern.Total.optional {p : Pattern ρ} (hp : p.Total definitions) :
    (Pattern.optional p).Total definitions := by
  intro input t spells
  obtain ⟨o, yields⟩ := hp input t spells
  cases o with
  | matched c s' => exact ⟨_, Goal.yields_iff.2 ⟨_, yields, rfl⟩⟩
  | rejected e => exact ⟨_, Goal.yields_iff.2 ⟨_, yields, rfl⟩⟩

/-- How often a loop that stands here is gone through before it stands somewhere else: once, if it
has room for another round. -/
def Goal.turns : Goal ρ → Nat
  | repeating _ _ max _ _ count => if belowMax max count then 1 else 0
  | scanning _ _ _ _ => 1
  | listing _ _ config _ _ count => if belowMax config.max count then 1 else 0
  | apply _ _ | resolve _ _ => 0

/-- The plan reaches an outcome and takes its own loop through this many turns. The loops of the
patterns that it asks are not counted. -/
inductive Plan.Turns (definitions : ρ → Resolution ρ) : Nat → Plan ρ → Outcome → Prop where
  | done (o : Outcome) : Turns definitions 0 (.done o) o
  | await {g : Goal ρ} {next : Outcome → Plan ρ} {n : Nat} {o o' : Outcome} :
    g.Yields definitions o' → Turns definitions n (next o') o →
    Turns definitions n (.await g next) o
  | become {g : Goal ρ} {n : Nat} {o : Outcome} :
    Turns definitions n (g.plan definitions) o → Turns definitions (g.turns + n) (.become g) o

namespace Plan.Turns

/-- Turns lead to the outcome that is reached. -/
lemma reaches (h : plan.Turns definitions n o) :
    plan.Reaches (Goal.Yields definitions) o := by
  induction h with
  | done o => rfl
  | await yields _ ih => exact ⟨_, yields, ih⟩
  | become _ ih => exact Goal.yields_iff.2 ih

/-- The turns of a plan are counted in one way. -/
lemma unique {n' : Nat} (h : plan.Turns definitions n o) (h' : plan.Turns definitions n' o') :
    n = n' ∧ o = o' := by
  induction h generalizing n' with
  | done o =>
    cases h'
    exact ⟨rfl, rfl⟩
  | await yields _ ih =>
    cases h' with
    | await yields' h' =>
      cases yields.unique yields'
      exact ih h'
  | become _ ih =>
    cases h' with
    | become h' =>
      obtain ⟨rfl, rfl⟩ := ih h'
      exact ⟨rfl, rfl⟩

end Plan.Turns

/-- The pattern comes to an outcome, and has gone through its loop at most `n` times by then. -/
structure Pattern.EndsWithin (definitions : ρ → Resolution ρ) (n : Nat) (p : Pattern ρ)
    (input : Slice) : Prop where
  returns : ∃ o, (Goal.apply p input).Yields definitions o
  counted : ∀ o, (Goal.apply p input).Yields definitions o →
    ∃ k, (p.plan input).Turns definitions k o
  bounded : ∀ k o, (p.plan input).Turns definitions k o → k ≤ n

/-- Turns that have been counted bound a loop. -/
lemma Plan.Turns.endsWithin {p : Pattern ρ} {k : Nat} (h : (p.plan input).Turns definitions k o)
    (le : k ≤ n) : p.EndsWithin definitions n input := by
  have yields : (Goal.apply p input).Yields definitions o := Goal.yields_iff.2 h.reaches
  refine ⟨⟨o, yields⟩, fun o' yields' => ?_, fun k' o' h' => ?_⟩
  · rw [yields'.unique yields]
    exact ⟨k, h⟩
  · obtain ⟨rfl, _⟩ := h.unique h'
    exact le

namespace Pattern.Honest

variable {p : Pattern ρ}

/-- A match splits the bytes. -/
lemma size_eq (hp : p.Honest definitions) (spells : s.Spells cs)
    (h : (Goal.apply p s).Yields definitions (.matched c s')) :
    s'.size = s.size - c.size ∧ c.size ≤ s.size := by
  obtain ⟨le, _, _, _, _, size⟩ := Slice.splitAt?_eq_some_iff.1 (hp s cs c s' spells h)
  exact ⟨size, le⟩

/-- What is left has no more bytes than there were. -/
lemma size_le (hp : p.Honest definitions) (spells : s.Spells cs)
    (h : (Goal.apply p s).Yields definitions (.matched c s')) : s'.size ≤ s.size := by
  obtain ⟨size, _⟩ := hp.size_eq spells h
  omega

/-- A match that consumes something leaves less. -/
lemma size_lt (hp : p.Honest definitions) (spells : s.Spells cs)
    (h : (Goal.apply p s).Yields definitions (.matched c s')) (nonempty : c.isEmpty = false) :
    s'.size < s.size := by
  obtain ⟨size, le⟩ := hp.size_eq spells h
  have pos : c.size ≠ 0 := beq_eq_false_iff_ne.1 nonempty
  omega

/-- What a match leaves is a text. -/
lemma spells (hp : p.Honest definitions) (spells : s.Spells cs)
    (h : (Goal.apply p s).Yields definitions (.matched c s')) : ∃ bs, s'.Spells bs := by
  obtain ⟨bs, cut⟩ := hp.cut spells h
  exact ⟨bs, cut.rest⟩

end Pattern.Honest

namespace Goal

/-- What a loop has before it. -/
def ahead : Goal ρ → Slice
  | apply _ input | resolve _ input => input
  | repeating _ _ _ _ rest _ | scanning _ _ _ rest | listing _ _ _ _ rest _ => rest

/-- A loop under way on a text. Its parts come to an outcome and, where the loop goes on with what
they leave, split what they are given. -/
def Looping (definitions : ρ → Resolution ρ) (g : Goal ρ) : Prop :=
  (∃ cs, g.ahead.Spells cs) ∧
  match g with
  | repeating body _ _ _ _ _ => body.Honest definitions ∧ body.Total definitions
  | scanning stop body _ _ =>
    stop.Total definitions ∧ body.Honest definitions ∧ body.Total definitions
  | listing element separator _ _ _ _ =>
    (element.Honest definitions ∧ element.Total definitions) ∧
      separator.Honest definitions ∧ separator.Total definitions
  | apply _ _ | resolve _ _ => False

end Goal

namespace Plan

/-- The plan comes to an outcome, or to a loop with less than `n` bytes before it. -/
inductive Advances (definitions : ρ → Resolution ρ) (n : Nat) : Plan ρ → Prop where
  | done (o : Outcome) : Advances definitions n (.done o)
  | await {g : Goal ρ} {next : Outcome → Plan ρ} {o : Outcome} : g.Yields definitions o →
    Advances definitions n (next o) → Advances definitions n (.await g next)
  | become {g : Goal ρ} : g.Looping definitions → g.ahead.size < n →
    Advances definitions n (.become g)

/-- One turn of a repetition ends it or takes it ahead. -/
lemma advances_ofRepeating {body : Pattern ρ} (hb : body.Honest definitions)
    (tb : body.Total definitions) (min : Nat) (max : Option Nat) (count : Nat)
    (spells : rest.Spells cs) :
    (ofRepeating body min max input rest count).Advances definitions rest.size := by
  rw [ofRepeating]
  split
  · obtain ⟨o, yields⟩ := tb rest cs spells
    refine .await yields ?_
    cases o with
    | rejected e => exact .done _
    | matched c s' =>
      simp only
      split
      · exact .done _
      · next nonempty =>
        have less := hb.size_lt spells yields (Bool.eq_false_iff.2 nonempty)
        exact .become ⟨hb.spells spells yields, hb, tb⟩ less
  · exact .done _

/-- One turn of a scan ends it or takes it ahead. -/
lemma advances_ofScanning {stop body : Pattern ρ} (ts : stop.Total definitions)
    (hb : body.Honest definitions) (tb : body.Total definitions) (spells : rest.Spells cs) :
    (ofScanning stop body input rest).Advances definitions rest.size := by
  obtain ⟨o, stops⟩ := ts rest cs spells
  refine .await stops ?_
  cases o with
  | matched c s' => exact .done _
  | rejected e =>
    simp only
    split
    · exact .done _
    · obtain ⟨o, yields⟩ := tb rest cs spells
      refine .await yields ?_
      cases o with
      | rejected e' => exact .done _
      | matched c s' =>
        simp only
        split
        · exact .done _
        · next nonempty =>
          have less := hb.size_lt spells yields (Bool.eq_false_iff.2 nonempty)
          exact .become ⟨hb.spells spells yields, ts, hb, tb⟩ less

/-- One turn of a series ends it or takes it ahead. -/
lemma advances_ofListing {element separator : Pattern ρ} (he : element.Honest definitions)
    (te : element.Total definitions) (hs : separator.Honest definitions)
    (ts : separator.Total definitions) (config : Series.Config) (count : Nat)
    (spells : rest.Spells cs) :
    (ofListing element separator config input rest count).Advances definitions rest.size := by
  rw [ofListing]
  split
  · obtain ⟨o, separates⟩ := ts rest cs spells
    refine .await separates ?_
    cases o with
    | rejected e => exact .done _
    | matched c s' =>
      obtain ⟨bs, spells'⟩ := hs.spells spells separates
      obtain ⟨o, yields⟩ := te s' bs spells'
      refine .await yields ?_
      cases o with
      | rejected e =>
        simp only
        split
        · exact .done _
        · split
          · exact .done _
          · exact .done _
      | matched c' s'' =>
        simp only
        split
        · exact .done _
        · next other =>
          -- One of the two may consume nothing, so the measure goes down for both together.
          have le := hs.size_le spells separates
          have le' := he.size_le spells' yields
          exact .become ⟨he.spells spells' yields, ⟨he, te⟩, hs, ts⟩
            (Nat.lt_of_le_of_ne (Nat.le_trans le' le) other)
  · exact .done _

end Plan

namespace Goal

/-- A goal is gone through once at most before the next one. -/
lemma turns_le_one (g : Goal ρ) : g.turns ≤ 1 := by
  cases g with
  | repeating _ _ max _ _ count =>
    rw [turns]
    split <;> omega
  | listing _ _ config _ _ count =>
    rw [turns]
    split <;> omega
  | _ => simp [turns]

/-- One turn of a loop ends it, or leaves less than there was. -/
lemma Looping.advances (h : g.Looping definitions) :
    (g.plan definitions).Advances definitions g.ahead.size := by
  obtain ⟨⟨cs, spells⟩, parts⟩ := h
  cases g with
  | repeating body min max input rest count =>
    exact Plan.advances_ofRepeating parts.1 parts.2 min max count spells
  | scanning stop body input rest =>
    exact Plan.advances_ofScanning parts.1 parts.2.1 parts.2.2 spells
  | listing element separator config input rest count =>
    obtain ⟨⟨he, te⟩, hs, ts⟩ := parts
    exact Plan.advances_ofListing he te hs ts config count spells
  | apply _ _ => exact parts.elim
  | resolve _ _ => exact parts.elim

end Goal

/-- If loops with less before them end in time, so does a plan that goes on with one of them. -/
lemma Plan.Advances.exists_turns (h : plan.Advances definitions n)
    (ih : ∀ g : Goal ρ, g.Looping definitions → g.ahead.size < n →
      ∃ k o, k ≤ g.ahead.size + 1 ∧ (Plan.become g).Turns definitions k o) :
    ∃ k o, k ≤ n ∧ plan.Turns definitions k o := by
  induction h with
  | done o => exact ⟨0, o, Nat.zero_le n, .done o⟩
  | await yields _ ih' =>
    obtain ⟨k, o, le, turns⟩ := ih'
    exact ⟨k, o, le, .await yields turns⟩
  | become looping less =>
    obtain ⟨k, o, le, turns⟩ := ih _ looping less
    exact ⟨k, o, Nat.le_trans le less, turns⟩

/-- A loop comes to an outcome in at most one turn more than there are bytes before it. -/
theorem Goal.Looping.exists_turns (h : g.Looping definitions) :
    ∃ k o, k ≤ g.ahead.size + 1 ∧ (Plan.become g).Turns definitions k o := by
  generalize size : g.ahead.size = n
  induction n using Nat.strongRecOn generalizing g with
  | ind n ih =>
    have advances := h.advances
    rw [size] at advances
    obtain ⟨k, o, le, turns⟩ := advances.exists_turns fun g' looping less => ih _ less looping rfl
    have one := g.turns_le_one
    exact ⟨g.turns + k, o, by omega, .become turns⟩

namespace Pattern

variable {p q : Pattern ρ}

/-- A repetition has one turn for each byte at most, and the last. -/
lemma exists_turns_repeated (hp : p.Honest definitions) (tp : p.Total definitions) (min : Nat)
    (max : Option Nat) (spells : input.Spells t) :
    ∃ k o, k ≤ input.size + 1 ∧ ((repeated p min max).plan input).Turns definitions k o := by
  have looping : (Goal.repeating p min max input input 0).Looping definitions :=
    ⟨⟨t, spells⟩, hp, tp⟩
  exact looping.exists_turns

/-- So has a scan. -/
lemma exists_turns_scan (hp : p.Honest definitions) (tp : p.Total definitions)
    (tq : q.Total definitions) (spells : input.Spells t) :
    ∃ k o, k ≤ input.size + 1 ∧ ((scan q p).plan input).Turns definitions k o := by
  have looping : (Goal.scanning q p input input).Looping definitions :=
    ⟨⟨t, spells⟩, tq, hp, tp⟩
  exact looping.exists_turns

/-- And a series. -/
lemma exists_turns_series (hp : p.Honest definitions) (tp : p.Total definitions)
    (hq : q.Honest definitions) (tq : q.Total definitions) (config : Series.Config)
    (spells : input.Spells t) :
    ∃ k o, k ≤ input.size + 1 ∧ ((series p q config).plan input).Turns definitions k o := by
  rw [plan]
  split
  · exact ⟨0, _, Nat.zero_le _, .done _⟩
  · obtain ⟨o, yields⟩ := tp input t spells
    cases o with
    | rejected e => exact ⟨0, _, Nat.zero_le _, .await yields (.done _)⟩
    | matched c s' =>
      have looping : (Goal.listing p q config input s' 1).Looping definitions :=
        ⟨hp.spells spells yields, ⟨hp, tp⟩, hq, tq⟩
      obtain ⟨k, o, le, turns⟩ := looping.exists_turns
      have shorter := hp.size_le spells yields
      exact ⟨k, o, Nat.le_trans le (Nat.succ_le_succ shorter), .await yields turns⟩

/-- Let `p` and `q` split what they are given and always come to an outcome. Then every repetition
of `p`, the scan of `p` up to `q` and every series of `p` separated by `q` come to an outcome, and
go through their loop at most once more than the input has bytes. -/
theorem loops_endWithin (hp : p.Honest definitions) (tp : p.Total definitions)
    (hq : q.Honest definitions) (tq : q.Total definitions) (spells : input.Spells t) :
    (∀ min max, (repeated p min max).EndsWithin definitions (byteLength t + 1) input) ∧
    (scan q p).EndsWithin definitions (byteLength t + 1) input ∧
    ∀ config, (series p q config).EndsWithin definitions (byteLength t + 1) input := by
  have size : byteLength t = input.size := spells.choose_spec.2
  rw [size]
  refine ⟨fun min max => ?_, ?_, fun config => ?_⟩
  · obtain ⟨k, o, le, turns⟩ := exists_turns_repeated hp tp min max spells
    exact turns.endsWithin le
  · obtain ⟨k, o, le, turns⟩ := exists_turns_scan hp tp tq spells
    exact turns.endsWithin le
  · obtain ⟨k, o, le, turns⟩ := exists_turns_series hp tp hq tq config spells
    exact turns.endsWithin le

/-- Elements and separators that consume nothing, on `aa`. -/
theorem loops_endWithin_nothing :
    (bytes 0).Honest (fun _ : Unit => .dropped) ∧ (bytes 0).Total (fun _ : Unit => .dropped) ∧
    (Slice.whole 0 ['a', 'a']).Spells ['a', 'a'] ∧
    (∀ min max, (repeated (bytes 0) min max).EndsWithin (fun _ : Unit => .dropped) 3
      (.whole 0 ['a', 'a'])) ∧
    (scan (bytes 0) (bytes 0)).EndsWithin (fun _ : Unit => .dropped) 3 (.whole 0 ['a', 'a']) ∧
    ∀ config, (series (bytes 0) (bytes 0) config).EndsWithin (fun _ : Unit => .dropped) 3
      (.whole 0 ['a', 'a']) := by
  have honest : (bytes 0).Honest fun _ : Unit => .dropped :=
    RegularOver.honest (.cut fun _ => 0 : (bytes 0).Regular) nofun
  have total : (bytes 0).Total fun _ : Unit => .dropped := fun input _ _ =>
    ⟨_, Goal.yields_iff.2 rfl⟩
  have spells := Slice.spells_whole 0 ['a', 'a']
  exact ⟨honest, total, spells, loops_endWithin honest total honest total spells⟩

end Pattern

end Recognizer
