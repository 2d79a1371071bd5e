import Recognizer.Proofs.Pattern.Repetition

/-!
# Repetitions of repetitions

A repetition whose body is itself a repetition goes one round, in which the inner one goes as far as
it can (`Pattern.Exhausts`). After that the inner one rejects, or matches and consumes nothing, and
either ends the outer one. So repeating what is repeated already changes nothing, and neither does
an option around it or inside it (`Pattern.repetition_idempotent`).
-/

namespace Recognizer

variable {ρ : Type} {definitions : ρ → Resolution ρ} {input s s' : Slice} {o : Outcome}
  {p q : Pattern ρ} {t : List Char} {n min count : Nat} {stoppedBy : Option Rejection}

namespace Pattern

/-- `q` runs `p` out: it matches all that `p` matches again and again, it finds nothing to match
where `p` does not, and it has an outcome only if there is an end to the matches of `p`. -/
structure Exhausts (definitions : ρ → Resolution ρ) (p q : Pattern ρ) : Prop where
  takes : ∀ {s s' : Slice} {cs : List Char} {n : Nat} {stoppedBy : Option Rejection},
    s.Spells cs → Repeats definitions p none s (n + 1) s' stoppedBy →
    ∃ c, (Goal.apply q s).Yields definitions (.matched c s') ∧ c.isEmpty = false
  stays : ∀ {s : Slice} {cs : List Char} {stoppedBy : Option Rejection},
    s.Spells cs → Repeats definitions p none s 0 s stoppedBy →
    ∃ stoppedBy', Finishes definitions q none 0 s stoppedBy'
  ends : ∀ {s : Slice} {o : Outcome}, (Goal.apply q s).Yields definitions o →
    ∃ n s' stoppedBy, Repeats definitions p none s n s' stoppedBy

/-- One round of what runs `p` out does as much as all rounds of `p`. -/
lemma Exhausts.repeats (h : p.Exhausts definitions q) (hp : p.Honest definitions)
    (spells : input.Spells t) (all : Repeats definitions p none input n s stoppedBy) :
    ∃ k stoppedBy', Repeats definitions q none input k s stoppedBy' ∧ (0 < n → 0 < k) := by
  obtain ⟨as, bs, cut⟩ := all.rounds.exists_cut hp spells
  obtain ⟨stoppedBy', finishes⟩ := h.stays cut.rest all.behind
  cases n with
  | zero =>
    cases all.rounds
    exact ⟨0, stoppedBy', ⟨.zero input, nofun, finishes⟩, id⟩
  | succ n =>
    obtain ⟨c, yields, nonempty⟩ := h.takes spells all
    have round := Rounds.succ yields nonempty (.zero s)
    exact ⟨1, stoppedBy', ⟨round, nofun, finishes.of_belowMax_eq rfl⟩, fun _ => Nat.one_pos⟩

/-- A repetition that is content with one match runs out what it repeats. -/
lemma exhausts_repeated (hp : p.Honest definitions) (one : min ≤ 1) :
    p.Exhausts definitions (.repeated p min none) where
  takes := by
    intro s s' cs n stoppedBy spells repeats
    obtain ⟨c, eq, progress⟩ :=
      repeats.matched hp spells (Nat.le_trans one (Nat.succ_le_succ (Nat.zero_le n)))
    -- There was a round, so less is left than there was.
    have less := repeats.rounds.size_lt hp spells
    rw [Slice.progress] at progress
    refine ⟨c, yields_repeated_iff.2 ⟨n + 1, s', stoppedBy, repeats, eq.symm⟩, ?_⟩
    exact beq_eq_false_iff_ne.2 (by omega)
  stays := by
    intro s cs stoppedBy spells repeats
    obtain zero | pos := Nat.eq_zero_or_pos min
    · obtain ⟨c, eq, progress⟩ := repeats.matched hp spells (Nat.le_of_eq zero)
      rw [Slice.progress_self] at progress
      exact ⟨none, .idle rfl (yields_repeated_iff.2 ⟨0, s, stoppedBy, repeats, eq.symm⟩)
        (beq_iff_eq.2 progress.symm)⟩
    · obtain ⟨e, eq⟩ := Outcome.exists_ofRepeated s s stoppedBy pos
      exact ⟨some e, .rejected rfl (yields_repeated_iff.2 ⟨0, s, stoppedBy, repeats, eq.symm⟩)⟩
  ends := by
    intro s o h
    obtain ⟨n, s', stoppedBy, repeats, _⟩ := yields_repeated_iff.1 h
    exact ⟨n, s', stoppedBy, repeats⟩

/-- What is matched again and again without a bound has an outcome at the start. -/
lemma exists_yields_of_repeated
    (h : (Goal.apply (.repeated p min none) input).Yields definitions o) :
    ∃ o', (Goal.apply p input).Yields definitions o' := by
  obtain ⟨n, s, stoppedBy, ⟨rounds, _, finishes⟩, _⟩ := yields_repeated_iff.1 h
  cases rounds with
  | zero _ =>
    cases finishes with
    | full full => cases full
    | rejected _ yields => exact ⟨_, yields⟩
    | idle _ yields _ => exact ⟨_, yields⟩
  | succ yields _ _ => exact ⟨_, yields⟩

/-- Repeating what runs `p` out is repeating `p`. -/
lemma agreesOn_many_of_exhausts (hp : p.Honest definitions) (h : p.Exhausts definitions q)
    (spells : input.Spells t) : p.many.AgreesOn definitions input q.many := by
  refine agreesOn_of_imp ?_ ?_
  · intro o ho
    obtain ⟨n, s, stoppedBy, all, rfl⟩ := yields_repeated_iff.1 ho
    obtain ⟨k, stoppedBy', one, _⟩ := h.repeats hp spells all
    refine yields_repeated_iff.2 ⟨k, s, stoppedBy', one, ?_⟩
    rw [Outcome.ofRepeated_of_le (Nat.zero_le n), Outcome.ofRepeated_of_le (Nat.zero_le k)]
  · intro o ho
    obtain ⟨o', inner⟩ := exists_yields_of_repeated ho
    obtain ⟨n, s, stoppedBy, all⟩ := h.ends inner
    exact ⟨_, yields_repeated_iff.2 ⟨n, s, stoppedBy, all, rfl⟩⟩

/-- If nothing is matched, the rejection of the inner repetition is handed on as it is. -/
lemma agreesOn_many1_many1 (hp : p.Honest definitions) (spells : input.Spells t) :
    p.many1.AgreesOn definitions input p.many1.many1 := by
  have exhausts : p.Exhausts definitions p.many1 := exhausts_repeated hp (Nat.le_refl 1)
  refine agreesOn_of_imp ?_ fun o ho => exists_yields_of_repeated ho
  intro o ho
  obtain ⟨n, s, stoppedBy, all, eq⟩ := yields_repeated_iff.1 ho
  obtain zero | pos := Nat.eq_zero_or_pos n
  · subst zero
    cases all.rounds
    obtain ⟨e, rejected⟩ := Outcome.exists_ofRepeated input input stoppedBy Nat.one_pos
    rw [rejected] at eq
    subst eq
    -- The outer one has no round behind it and moves the rejection by nothing.
    refine yields_repeated_iff.2 ⟨0, input, some e, ⟨.zero input, nofun, .rejected rfl ho⟩, ?_⟩
    rw [Outcome.ofRepeated, if_neg (Nat.not_succ_le_zero 0), Slice.progress_self]
    rfl
  · obtain ⟨k, stoppedBy', one, some⟩ := exhausts.repeats hp spells all
    refine yields_repeated_iff.2 ⟨k, s, stoppedBy', one, ?_⟩
    rw [eq, Outcome.ofRepeated_of_le pos, Outcome.ofRepeated_of_le (some pos)]

/-- Two repetitions, one behind the other, are one. -/
lemma agreesOn_many_many (hp : p.Honest definitions) (spells : input.Spells t) :
    p.many.AgreesOn definitions input (.concat [p.many, p.many]) := by
  refine agreesOn_of_imp ?_ ?_
  · intro o ho
    obtain ⟨n, s, stoppedBy, all, rfl⟩ := yields_repeated_iff.1 ho
    obtain ⟨as, bs, cut⟩ := all.rounds.exists_cut hp spells
    obtain ⟨c, eq, _⟩ := all.matched hp spells (Nat.zero_le n)
    obtain ⟨c', eq', _⟩ := all.behind.matched hp cut.rest (Nat.zero_le 0)
    rw [eq] at ho
    rw [Outcome.ofRepeated_of_le (Nat.zero_le n)]
    exact yields_pair_of_matched ho
      (yields_repeated_iff.2 ⟨0, s, stoppedBy, all.behind, eq'.symm⟩)
  · intro o ho
    obtain ⟨o', first, _⟩ := exists_yields_of_pair ho
    exact ⟨o', first⟩

/-- An optional pattern matches nothing where its body rejects. -/
lemma yields_optional_of_rejected {e : Rejection}
    (h : (Goal.apply p s).Yields definitions (.rejected e)) :
    (Goal.apply (.optional p) s).Yields definitions (.empty s) :=
  Goal.yields_iff.2 ⟨_, h, rfl⟩

/-- And what its body matches where it does. -/
lemma yields_optional_of_matched {c : Slice}
    (h : (Goal.apply p s).Yields definitions (.matched c s')) :
    (Goal.apply (.optional p) s).Yields definitions (.matched c s') :=
  Goal.yields_iff.2 ⟨_, h, rfl⟩

/-- The outcomes of an option. -/
lemma yields_optional_cases (h : (Goal.apply (.optional p) s).Yields definitions o) :
    (∃ c s', (Goal.apply p s).Yields definitions (.matched c s') ∧ o = .matched c s') ∨
    ∃ e, (Goal.apply p s).Yields definitions (.rejected e) ∧ o = .empty s := by
  obtain ⟨o', yields, h⟩ := Goal.yields_iff.1 h
  cases o' with
  | matched c s' => exact .inl ⟨c, s', yields, h.symm⟩
  | rejected e => exact .inr ⟨e, yields, h.symm⟩

/-- The rounds of a pattern are those of its option. -/
lemma rounds_optional_iff :
    Rounds definitions (.optional p) n s s' ↔ Rounds definitions p n s s' := by
  constructor
  · intro h
    induction h with
    | zero s => exact .zero s
    | succ yields nonempty _ ih =>
      obtain ⟨c, s', yields, eq⟩ | ⟨e, _, eq⟩ := yields_optional_cases yields
      · cases eq
        exact .succ yields nonempty ih
      · cases eq
        cases nonempty
  · intro h
    induction h with
    | zero s => exact .zero s
    | succ yields nonempty _ ih => exact .succ (yields_optional_of_matched yields) nonempty ih

/-- Where a pattern stops being repeated, so does its option, and only there. -/
lemma exists_finishes_optional_iff :
    (∃ stoppedBy, Finishes definitions (.optional p) none count s stoppedBy) ↔
      ∃ stoppedBy, Finishes definitions p none count s stoppedBy := by
  constructor
  · rintro ⟨stoppedBy, h⟩
    cases h with
    | full full => cases full
    | rejected room yields =>
      obtain ⟨c, s', _, eq⟩ | ⟨e, _, eq⟩ := yields_optional_cases yields
      · cases eq
      · cases eq
    | idle room yields empty =>
      obtain ⟨c, s', yields, eq⟩ | ⟨e, yields, _⟩ := yields_optional_cases yields
      · cases eq
        exact ⟨none, .idle room yields empty⟩
      · exact ⟨some e, .rejected room yields⟩
  · rintro ⟨stoppedBy, h⟩
    refine ⟨none, ?_⟩
    cases h with
    | full full => cases full
    | rejected room yields => exact .idle room (yields_optional_of_rejected yields) rfl
    | idle room yields empty => exact .idle room (yields_optional_of_matched yields) empty

/-- Whether the body is optional does not matter in a repetition. -/
lemma agreesOn_many_optional (input : Slice) :
    p.many.AgreesOn definitions input (Pattern.optional p).many := by
  refine agreesOn_of_imp ?_ ?_
  · intro o ho
    obtain ⟨n, s, stoppedBy, ⟨rounds, _, finishes⟩, rfl⟩ := yields_repeated_iff.1 ho
    obtain ⟨stoppedBy', finishes'⟩ := exists_finishes_optional_iff.2 ⟨stoppedBy, finishes⟩
    refine yields_repeated_iff.2
      ⟨n, s, stoppedBy', ⟨rounds_optional_iff.2 rounds, nofun, finishes'⟩, ?_⟩
    rw [Outcome.ofRepeated_of_le (Nat.zero_le n), Outcome.ofRepeated_of_le (Nat.zero_le n)]
  · intro o ho
    obtain ⟨n, s, stoppedBy, ⟨rounds, _, finishes⟩, _⟩ := yields_repeated_iff.1 ho
    obtain ⟨stoppedBy', finishes'⟩ := exists_finishes_optional_iff.1 ⟨stoppedBy, finishes⟩
    exact ⟨_, yields_repeated_iff.2
      ⟨n, s, stoppedBy', ⟨rounds_optional_iff.1 rounds, nofun, finishes'⟩, rfl⟩⟩

/-- Any number of times is at least once or not at all. -/
lemma agreesOn_optional_many1 (hp : p.Honest definitions) (spells : input.Spells t) :
    p.many.AgreesOn definitions input (.optional p.many1) := by
  refine agreesOn_of_imp ?_ ?_
  · intro o ho
    obtain ⟨n, s, stoppedBy, all, rfl⟩ := yields_repeated_iff.1 ho
    rw [Outcome.ofRepeated_of_le (Nat.zero_le n)]
    obtain zero | pos := Nat.eq_zero_or_pos n
    · subst zero
      cases all.rounds
      obtain ⟨e, eq⟩ := Outcome.exists_ofRepeated input input stoppedBy Nat.one_pos
      rw [Outcome.fromRemainder_self]
      exact yields_optional_of_rejected
        (yields_repeated_iff.2 ⟨0, input, stoppedBy, all, eq.symm⟩)
    · obtain ⟨c, eq, _⟩ := all.matched hp spells pos
      have yields : (Goal.apply p.many1 input).Yields definitions (.matched c s) :=
        yields_repeated_iff.2 ⟨n, s, stoppedBy, all, eq.symm⟩
      rw [Outcome.ofRepeated_of_le pos] at eq
      rw [eq]
      exact yields_optional_of_matched yields
  · intro o ho
    obtain ⟨o', inner, _⟩ := Goal.yields_iff.1 ho
    obtain ⟨n, s, stoppedBy, all, _⟩ := yields_repeated_iff.1 inner
    exact ⟨_, yields_repeated_iff.2 ⟨n, s, stoppedBy, all, rfl⟩⟩

/-- A repetition that need not match always does. -/
lemma matched_of_many (hp : p.Honest definitions) (spells : input.Spells t)
    (h : (Goal.apply p.many input).Yields definitions o) : ∃ c s, o = .matched c s := by
  obtain ⟨n, s, stoppedBy, all, rfl⟩ := yields_repeated_iff.1 h
  obtain ⟨c, eq, _⟩ := all.matched hp spells (Nat.zero_le n)
  exact ⟨c, s, eq⟩

/-- Let `p` split what it is given; it may match without consuming anything. To repeat a repetition
or an option of `p`, to make one repetition of `p` optional or to have two of them in sequence is to
repeat `p`, which never rejects, and matches if `p` always comes to an outcome. To repeat at least
once what is repeated at least once is to repeat it at least once. -/
theorem repetition_idempotent (hp : p.Honest definitions) (spells : input.Spells t) :
    (p.many.many.AgreesOn definitions input p.many ∧
      p.many1.many.AgreesOn definitions input p.many ∧
      (optional p).many.AgreesOn definitions input p.many ∧
      (optional p.many1).AgreesOn definitions input p.many ∧
      (concat [p.many, p.many]).AgreesOn definitions input p.many) ∧
    ((∀ e, ¬ (Goal.apply p.many input).Yields definitions (.rejected e)) ∧
      (p.Total definitions → ∃ consumed remainder,
        (Goal.apply p.many input).Yields definitions (.matched consumed remainder))) ∧
    p.many1.many1.AgreesOn definitions input p.many1 := by
  have many : p.Exhausts definitions p.many := exhausts_repeated hp (Nat.zero_le 1)
  have many1 : p.Exhausts definitions p.many1 := exhausts_repeated hp (Nat.le_refl 1)
  refine ⟨⟨?_, ?_, ?_, ?_, ?_⟩, ⟨fun e h => ?_, fun total => ?_⟩, ?_⟩
  · exact (agreesOn_many_of_exhausts hp many spells).symm
  · exact (agreesOn_many_of_exhausts hp many1 spells).symm
  · exact (agreesOn_many_optional input).symm
  · exact (agreesOn_optional_many1 hp spells).symm
  · exact (agreesOn_many_many hp spells).symm
  · obtain ⟨c, s, eq⟩ := matched_of_many hp spells h
    cases eq
  · obtain ⟨_, o, _, turns⟩ := exists_turns_repeated hp total 0 none spells
    have yields : (Goal.apply p.many input).Yields definitions o := Goal.yields_iff.2 turns.reaches
    obtain ⟨c, s, rfl⟩ := matched_of_many hp spells yields
    exact ⟨c, s, yields⟩
  · exact (agreesOn_many1_many1 hp spells).symm

/-- An option on `b`, where it matches and consumes nothing. -/
theorem repetition_idempotent_option :
    let p : Pattern Unit := .optional (.char 'a')
    let input := Slice.whole 0 ['b']
    p.Honest (fun _ => .dropped) ∧ input.Spells ['b'] ∧ p.Total (fun _ => .dropped) ∧
    (Goal.apply p.many.many input).Yields (fun _ => .dropped) (.empty input) ∧
    (Goal.apply (.optional p.many1) input).Yields (fun _ => .dropped) (.empty input) ∧
    (Goal.apply p.many1.many1 input).Yields (fun _ => .dropped)
      (.refuse (.tooFewRepetitions 1 0)) := by
  intro p input
  have honest : p.Honest fun _ => .dropped :=
    RegularOver.honest (.optional (.satisfy _) : p.Regular) nofun
  have total : p.Total fun _ => .dropped := (total_satisfy _ _).optional
  have spells := Slice.spells_whole 0 ['b']
  have one : (Goal.apply p.many input).Yields (fun _ => .dropped) (.empty input) := ⟨5, rfl⟩
  have none : (Goal.apply p.many1 input).Yields (fun _ => .dropped)
    (.refuse (.tooFewRepetitions 1 0)) := ⟨5, rfl⟩
  obtain ⟨⟨nested, _, _, option, _⟩, _, nested1⟩ := repetition_idempotent honest spells
  exact ⟨honest, spells, total, (nested _).2 one, (option _).2 one, (nested1 _).2 none⟩

end Pattern

end Recognizer
