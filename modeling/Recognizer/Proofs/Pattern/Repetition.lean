import Recognizer.Proofs.Pattern.Sequencing
import Recognizer.Proofs.Pattern.Turns

/-!
# Repetitions in parts

A repetition is told by its rounds, by the place where they end and by what has ended them
(`Pattern.yields_repeated_iff`). The rounds can be cut behind any number of them
(`repeats_add_iff`). So a repetition with a lower bound is that many rounds and then a repetition
without one, whichever of the two it is in when the body rejects or consumes nothing
(`Goal.yields_repeated_bounds`).
-/

namespace Recognizer

variable {ρ : Type} {definitions : ρ → Resolution ρ} {input s s' s'' : Slice} {o : Outcome}
  {p q body : Pattern ρ} {t cs : List Char} {m n min count : Nat} {max : Option Nat}
  {stoppedBy : Option Rejection}

namespace Rounds

/-- Rounds can be cut behind any number of them. -/
lemma add_iff : Rounds definitions body (m + n) s s'' ↔
    ∃ s', Rounds definitions body m s s' ∧ Rounds definitions body n s' s'' := by
  constructor
  · intro h
    induction m generalizing s with
    | zero =>
      rw [Nat.zero_add] at h
      exact ⟨s, .zero s, h⟩
    | succ m ih =>
      rw [Nat.add_right_comm] at h
      cases h with
      | succ yields nonempty h =>
        obtain ⟨s', first, second⟩ := ih h
        exact ⟨s', .succ yields nonempty first, second⟩
  · rintro ⟨s', first, second⟩
    induction first with
    | zero s =>
      rw [Nat.zero_add]
      exact second
    | succ yields nonempty _ ih =>
      rw [Nat.add_right_comm]
      exact .succ yields nonempty (ih second)

/-- What rounds consume is a cut. -/
lemma exists_cut (h : Rounds definitions body n s s') (hb : body.Honest definitions)
    (spells : s.Spells cs) : ∃ as bs, s.Cut s' as bs := by
  induction h generalizing cs with
  | zero s => exact ⟨[], cs, .refl spells⟩
  | succ yields _ _ ih =>
    obtain ⟨bs, cut⟩ := hb.cut spells yields
    obtain ⟨as', bs', cut'⟩ := ih cut.rest
    exact ⟨_, bs', cut.trans cut'⟩

/-- A round leaves less than there was. -/
lemma size_lt (h : Rounds definitions body (n + 1) s s') (hb : body.Honest definitions)
    (spells : s.Spells cs) : s'.size < s.size := by
  cases h with
  | succ yields nonempty more =>
    obtain ⟨bs, spells'⟩ := hb.spells spells yields
    obtain ⟨as, bs', cut⟩ := more.exists_cut hb spells'
    exact Nat.lt_of_le_of_lt cut.tail.endsWith.2.2 (hb.size_lt spells yields nonempty)

/-- A repetition comes to the answer that it comes to after some rounds. -/
lemma repeating_of_repeating (h : Rounds definitions body n s s')
    (room : ∀ m ∈ max, count + n ≤ m)
    (ho : (Goal.repeating body min max input s' (count + n)).Yields definitions o) :
    (Goal.repeating body min max input s count).Yields definitions o := by
  induction h generalizing count with
  | zero s => exact ho
  | @succ n s c s' s'' yields nonempty _ ih =>
    rw [Goal.yields_iff, Goal.plan, Plan.ofRepeating, if_pos (belowMax_of_succ_le room)]
    refine ⟨_, yields, ?_⟩
    simp only [nonempty]
    have sum : count + (n + 1) = count + 1 + n := by omega
    rw [sum] at room ho
    exact ih room ho

end Rounds

/-- A repetition with `count` matches ends at `s`, perhaps by a rejection. -/
inductive Finishes (definitions : ρ → Resolution ρ) (body : Pattern ρ) (max : Option Nat)
    (count : Nat) (s : Slice) : Option Rejection → Prop where
  | full : belowMax max count = false → Finishes definitions body max count s none
  | rejected {e : Rejection} : belowMax max count = true →
    (Goal.apply body s).Yields definitions (.rejected e) →
    Finishes definitions body max count s (some e)
  | idle {c s' : Slice} : belowMax max count = true →
    (Goal.apply body s).Yields definitions (.matched c s') → c.isEmpty = true →
    Finishes definitions body max count s none

namespace Finishes

/-- The bound and the count matter only for whether there is room. -/
lemma of_belowMax_eq {max' : Option Nat} {count' : Nat}
    (h : Finishes definitions body max count s stoppedBy)
    (eq : belowMax max' count' = belowMax max count) :
    Finishes definitions body max' count' s stoppedBy := by
  cases h with
  | full full => exact .full (eq.trans full)
  | rejected room yields => exact .rejected (eq.trans room) yields
  | idle room yields empty => exact .idle (eq.trans room) yields empty

/-- A repetition that finishes answers by the number of its rounds. -/
lemma repeating (h : Finishes definitions body max count s stoppedBy) (min : Nat)
    (input : Slice) : (Goal.repeating body min max input s count).Yields definitions
      (.ofRepeated min input s count stoppedBy) := by
  rw [Goal.yields_iff, Goal.plan, Plan.ofRepeating]
  cases h with
  | full full =>
    rw [full]
    rfl
  | rejected room yields =>
    rw [if_pos room]
    exact ⟨_, yields, rfl⟩
  | idle room yields empty =>
    rw [if_pos room]
    refine ⟨_, yields, ?_⟩
    simp only [if_pos empty]
    rfl

end Finishes

/-- A repetition goes through `n` rounds and ends at `s`, perhaps by a rejection. -/
structure Repeats (definitions : ρ → Resolution ρ) (body : Pattern ρ) (max : Option Nat)
    (input : Slice) (n : Nat) (s : Slice) (stoppedBy : Option Rejection) : Prop where
  rounds : Rounds definitions body n input s
  room : ∀ m ∈ max, n ≤ m
  finishes : Finishes definitions body max n s stoppedBy

/-- Where rounds are no longer gone through, a repetition finishes. -/
lemma EndsRounds.exists_finishes (h : EndsRounds definitions body max count s) :
    ∃ stoppedBy, Finishes definitions body max count s stoppedBy := by
  cases h with
  | full full => exact ⟨none, .full full⟩
  | rejected yields =>
    cases room : belowMax max count with
    | true => exact ⟨_, .rejected room yields⟩
    | false => exact ⟨none, .full room⟩
  | idle yields empty =>
    cases room : belowMax max count with
    | true => exact ⟨none, .idle room yields empty⟩
    | false => exact ⟨none, .full room⟩

/-- The outcomes of a repetition are told by its rounds and how they end. -/
lemma Pattern.yields_repeated_iff :
    (Goal.apply (.repeated body min max) input).Yields definitions o ↔
      ∃ n s stoppedBy, Repeats definitions body max input n s stoppedBy ∧
        o = .ofRepeated min input s n stoppedBy := by
  constructor
  · intro h
    have loop : (Goal.repeating body min max input input 0).Yields definitions o :=
      Goal.yields_iff.1 h
    obtain ⟨n, s, rounds, bound, ends, _⟩ := loop.traces
    have room := bound fun m _ => Nat.zero_le m
    obtain ⟨stoppedBy, finishes⟩ := ends.exists_finishes
    have answer := (rounds.repeating room loop).unique (finishes.repeating min input)
    rw [Nat.zero_add] at room finishes answer
    exact ⟨n, s, stoppedBy, ⟨rounds, room, finishes⟩, answer⟩
  · rintro ⟨n, s, stoppedBy, ⟨rounds, room, finishes⟩, rfl⟩
    rw [← Nat.zero_add n] at room finishes
    have loop := rounds.repeating_of_repeating room (finishes.repeating min input)
    rw [Nat.zero_add] at loop
    exact Goal.yields_iff.2 loop

namespace Repeats

/-- A repetition that has matched often enough matches. -/
lemma matched (h : Repeats definitions p max input n s stoppedBy) (hp : p.Honest definitions)
    (spells : input.Spells t) (enough : min ≤ n) :
    ∃ c, Outcome.ofRepeated min input s n stoppedBy = .matched c s ∧
      input.progress s = c.size := by
  obtain ⟨as, bs, cut⟩ := h.rounds.exists_cut hp spells
  obtain ⟨c, eq, split⟩ := cut.tail.exists_matched
  rw [Outcome.ofRepeated.eq_def, if_pos enough]
  exact ⟨c, eq, Slice.progress_of_splitAt? split⟩

/-- Where a repetition without an upper bound has ended, it does not go on. -/
lemma behind (h : Repeats definitions p none input n s stoppedBy) :
    Repeats definitions p none s 0 s stoppedBy :=
  ⟨.zero s, nofun, h.finishes.of_belowMax_eq rfl⟩

end Repeats

/-- Too few rounds are a rejection, whatever has ended them. -/
lemma Outcome.exists_ofRepeated (input s : Slice) (stoppedBy : Option Rejection) (early : n < min) :
    ∃ e, ofRepeated min input s n stoppedBy = .rejected e := by
  rw [ofRepeated.eq_def, if_neg (Nat.not_le_of_lt early)]
  cases stoppedBy with
  | none => exact ⟨_, rfl⟩
  | some e => exact ⟨_, rfl⟩

/-- Enough rounds are a match, whatever has ended them. -/
lemma Outcome.ofRepeated_of_le (enough : min ≤ n) :
    ofRepeated min input s n stoppedBy = .fromRemainder input s := by
  rw [ofRepeated.eq_def, if_pos enough]

/-- A match up to the start is empty. -/
lemma Outcome.fromRemainder_self (input : Slice) : fromRemainder input input = .empty input := by
  rw [(Slice.HasTail.refl input).fromRemainder_eq, Slice.progress_self, split, Slice.splitAt?_zero]
  rfl

/-- Enough rounds end a repetition that has no room for more of them. -/
lemma Rounds.repeats_exactly (h : Rounds definitions p m input s) :
    Repeats definitions p (some m) input m s none := by
  have full : belowMax (some m) m = false := by simp [belowMax]
  refine ⟨h, fun m' eq => ?_, .full full⟩
  cases eq
  exact Nat.le_refl m

/-- The same number more on both sides leaves as much room. -/
lemma belowMax_add (max : Option Nat) (m k : Nat) :
    belowMax (max.map (m + ·)) (m + k) = belowMax max k := by
  cases max with
  | none => rfl
  | some l => simp [belowMax]

/-- There is room below a bound that has been raised above the count. -/
lemma belowMax_add_of_lt (max : Option Nat) (early : n < m) :
    belowMax (max.map (m + ·)) n = true := by
  cases max with
  | none => rfl
  | some l =>
    simp only [belowMax, Option.map_some, Option.all_some, decide_eq_true_eq]
    omega

/-- A repetition with `m` more in its bound either ends before its first `m` rounds are over, or it
goes through them and then through those of the repetition with the bound. -/
lemma repeats_add_iff : Repeats definitions p (max.map (m + ·)) input n s stoppedBy ↔
    (n < m ∧ Repeats definitions p (some m) input n s stoppedBy) ∨
    ∃ k s', n = m + k ∧ Rounds definitions p m input s' ∧
      Repeats definitions p max s' k s stoppedBy := by
  have below (early : n < m) : belowMax (some m) n = true := decide_eq_true early
  constructor
  · rintro ⟨rounds, room, finishes⟩
    by_cases early : n < m
    · -- Below `m` there is room under either bound, so both loops end in the same way.
      refine .inl ⟨early, rounds, fun m' eq => ?_, finishes.of_belowMax_eq ?_⟩
      · cases eq
        exact Nat.le_of_lt early
      · rw [below early, belowMax_add_of_lt max early]
    · obtain ⟨k, rfl⟩ := Nat.exists_eq_add_of_le (Nat.le_of_not_lt early)
      obtain ⟨s', first, second⟩ := Rounds.add_iff.1 rounds
      refine .inr ⟨k, s', rfl, first, second, fun l hl => ?_, ?_⟩
      · exact Nat.le_of_add_le_add_left (room (m + l) (Option.mem_map_of_mem _ hl))
      · exact finishes.of_belowMax_eq (belowMax_add max m k).symm
  · rintro (⟨early, rounds, _, finishes⟩ | ⟨k, s', rfl, first, second, room, finishes⟩)
    · refine ⟨rounds, fun m' hm => ?_, finishes.of_belowMax_eq ?_⟩
      · obtain ⟨l, _, rfl⟩ := Option.map_eq_some_iff.1 hm
        omega
      · rw [below early, belowMax_add_of_lt max early]
    · refine ⟨Rounds.add_iff.2 ⟨s', first, second⟩, fun m' hm => ?_, ?_⟩
      · obtain ⟨l, hl, rfl⟩ := Option.map_eq_some_iff.1 hm
        exact Nat.add_le_add_left (room l hl) m
      · exact finishes.of_belowMax_eq (belowMax_add max m k)

namespace Pattern

/-- It is enough to follow one of the patterns, if the other one has no outcomes besides. -/
lemma agreesOn_of_imp
    (h : ∀ o, (Goal.apply p input).Yields definitions o → (Goal.apply q input).Yields definitions o)
    (returns : ∀ o, (Goal.apply q input).Yields definitions o →
      ∃ o', (Goal.apply p input).Yields definitions o') : p.AgreesOn definitions input q := by
  refine fun o => ⟨h o, fun ho => ?_⟩
  obtain ⟨o', ho'⟩ := returns o ho
  obtain rfl := ho.unique (h o' ho')
  exact ho'

/-- Of two patterns, the rejection of the first is that of both. -/
lemma yields_pair_of_rejected {e : Rejection} (q : Pattern ρ)
    (h : (Goal.apply p input).Yields definitions (.rejected e)) :
    (Goal.apply (.concat [p, q]) input).Yields definitions (.rejected e) := by
  refine yields_concat_iff_passes.2 (.inr ⟨[], input, e, .here [q] h, ?_⟩)
  rw [Slice.progress_self]
  rfl

/-- Two patterns that match do so up to where the second ends. -/
lemma yields_pair_of_matched {c c' : Slice}
    (h : (Goal.apply p input).Yields definitions (.matched c s))
    (h' : (Goal.apply q s).Yields definitions (.matched c' s')) :
    (Goal.apply (.concat [p, q]) input).Yields definitions (.fromRemainder input s') :=
  yields_concat_iff_passes.2 (.inl ⟨[c, c'], s', .cons h (.cons h' (.nil s')), rfl⟩)

/-- Two patterns have an outcome if the first has one and the second does behind its match. -/
lemma exists_yields_of_pair (h : (Goal.apply (.concat [p, q]) input).Yields definitions o) :
    ∃ o', (Goal.apply p input).Yields definitions o' ∧
      ∀ c s, o' = .matched c s → ∃ o'', (Goal.apply q s).Yields definitions o'' := by
  obtain ⟨o', yields, h⟩ := Goal.yields_iff.1 h
  refine ⟨o', yields, fun c s matched => ?_⟩
  subst matched
  obtain ⟨o'', yields', _⟩ := h
  exact ⟨o'', yields'⟩

/-- A repetition that has to match `m` times is one that matches exactly so often and then one that
need not match. -/
lemma agreesOn_repeated_add (hp : p.Honest definitions) (spells : input.Spells t) (m : Nat)
    (max : Option Nat) : (repeated p m (max.map (m + ·))).AgreesOn definitions input
      (.concat [p.exactly m, .repeated p 0 max]) := by
  refine agreesOn_of_imp ?_ ?_
  · intro o h
    obtain ⟨n, s, stoppedBy, repeats, rfl⟩ := yields_repeated_iff.1 h
    obtain ⟨early, first⟩ | ⟨k, s', rfl, first, second⟩ := repeats_add_iff.1 repeats
    · -- The first part stands at the start, so the sequence hands its rejection on as it is.
      obtain ⟨e, eq⟩ := Outcome.exists_ofRepeated input s stoppedBy early
      rw [eq]
      exact yields_pair_of_rejected _
        (yields_repeated_iff.2 ⟨n, s, stoppedBy, first, eq.symm⟩)
    · obtain ⟨as, bs, cut⟩ := first.exists_cut hp spells
      obtain ⟨c, eq, _⟩ := first.repeats_exactly.matched hp spells (Nat.le_refl m)
      obtain ⟨c', eq', _⟩ := second.matched hp cut.rest (Nat.zero_le k)
      rw [Outcome.ofRepeated_of_le (Nat.le_add_right m k)]
      exact yields_pair_of_matched
        (yields_repeated_iff.2 ⟨m, s', none, first.repeats_exactly, eq.symm⟩)
        (yields_repeated_iff.2 ⟨k, s, stoppedBy, second, eq'.symm⟩)
  · intro o h
    obtain ⟨o', first, behind⟩ := exists_yields_of_pair h
    obtain ⟨n, s, stoppedBy, repeats, rfl⟩ := yields_repeated_iff.1 first
    obtain early | full := Nat.lt_or_eq_of_le (repeats.room m rfl)
    · exact ⟨_, yields_repeated_iff.2
        ⟨n, s, stoppedBy, repeats_add_iff.2 (.inl ⟨early, repeats⟩), rfl⟩⟩
    · subst full
      obtain ⟨c, eq, _⟩ := repeats.matched hp spells (Nat.le_refl n)
      obtain ⟨o'', second⟩ := behind c s eq
      obtain ⟨k, s', stoppedBy', repeats', rfl⟩ := yields_repeated_iff.1 second
      exact ⟨_, yields_repeated_iff.2 ⟨n + k, s', stoppedBy',
        repeats_add_iff.2 (.inr ⟨k, s, rfl, repeats.rounds, repeats'⟩), rfl⟩⟩

end Pattern

/-- Let `p` split what it is given. A repetition of `p` that has to match `m` times and may match
more often is one that matches exactly `m` times and then one that need not match, with the bound
that is left. If it may not match as often as it has to, it only rejects, and does so wherever `p`
always comes to an outcome. -/
theorem Goal.yields_repeated_bounds (hp : p.Honest definitions) (spells : input.Spells t)
    (m : Nat) :
    (Pattern.repeated p m none).AgreesOn definitions input (.concat [p.exactly m, p.many]) ∧
    (∀ k, (Pattern.repeated p m (some (m + k))).AgreesOn definitions input
      (.concat [p.exactly m, .repeated p 0 (some k)])) ∧
    ∀ max, max < m →
      (∀ o, (Goal.apply (.repeated p m (some max)) input).Yields definitions o →
        ∃ e, o = .rejected e) ∧
      (p.Total definitions →
        ∃ e, (Goal.apply (.repeated p m (some max)) input).Yields definitions (.rejected e)) := by
  refine ⟨Pattern.agreesOn_repeated_add hp spells m none,
    fun k => Pattern.agreesOn_repeated_add hp spells m (some k), fun max less => ?_⟩
  have rejects (o : Outcome)
      (h : (Goal.apply (.repeated p m (some max)) input).Yields definitions o) :
      ∃ e, o = .rejected e := by
    obtain ⟨n, s, stoppedBy, repeats, rfl⟩ := Pattern.yields_repeated_iff.1 h
    exact Outcome.exists_ofRepeated input s stoppedBy
      (Nat.lt_of_le_of_lt (repeats.room max rfl) less)
  refine ⟨rejects, fun total => ?_⟩
  obtain ⟨k, o, _, turns⟩ := Pattern.exists_turns_repeated hp total m (some max) spells
  have yields : (Goal.apply (.repeated p m (some max)) input).Yields definitions o :=
    Goal.yields_iff.2 turns.reaches
  obtain ⟨e, rfl⟩ := rejects o yields
  exact ⟨e, yields⟩

/-- An option on `a`, where its second match consumes nothing. -/
theorem Goal.yields_repeated_bounds_option :
    let p : Pattern Unit := .optional (.char 'a')
    let input := Slice.whole 0 ['a']
    p.Honest (fun _ => .dropped) ∧ input.Spells ['a'] ∧ p.Total (fun _ => .dropped) ∧
    (Goal.apply (.concat [p.exactly 2, p.many]) input).Yields (fun _ => .dropped)
      (.refuseAt (.tooFewRepetitions 2 1) 1) ∧
    (Goal.apply (.concat [p.exactly 2, .repeated p 0 (some 3)]) input).Yields (fun _ => .dropped)
      (.refuseAt (.tooFewRepetitions 2 1) 1) ∧
    ∃ e, (Goal.apply (.repeated p 2 (some 1)) input).Yields (fun _ => .dropped) (.rejected e) := by
  intro p input
  have honest : p.Honest fun _ => .dropped :=
    Pattern.RegularOver.honest (.optional (.satisfy _) : p.Regular) nofun
  have total : p.Total fun _ => .dropped := (Pattern.total_satisfy _ _).optional
  have spells := Slice.spells_whole 0 ['a']
  have unbounded : (Goal.apply (.repeated p 2 none) input).Yields (fun _ => .dropped)
    (.refuseAt (.tooFewRepetitions 2 1) 1) := ⟨6, rfl⟩
  have bounded : (Goal.apply (.repeated p 2 (some (2 + 3))) input).Yields (fun _ => .dropped)
    (.refuseAt (.tooFewRepetitions 2 1) 1) := ⟨6, rfl⟩
  obtain ⟨many, upTo, never⟩ := Goal.yields_repeated_bounds honest spells 2
  exact ⟨honest, spells, total, (many _).1 unbounded, (upTo 3 _).1 bounded,
    (never 1 Nat.one_lt_two).2 total⟩

end Recognizer
