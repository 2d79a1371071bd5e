import Recognizer.Proofs.Pattern.Elements

/-!
# A separator behind the last element

Two series that differ only in what becomes of a separator with no element behind it do the same
rounds. So they come to the same answer, unless there is such a separator: then one of them
consumes it, and the other one answers as the element did (`Series.Policies`). Seen from outside,
they differ only where the series that allows the separator matches with it, or has too few elements
before it (`Series.trailing_policies`).
-/

namespace Recognizer

variable {ρ : Type} {definitions : ρ → Resolution ρ} {element separator : Pattern ρ}
  {config : Series.Config} {input s s' : Slice} {o f a : Outcome} {pieces : List Slice}
  {n count : Nat}

/-- What a series does at the end of its rounds gives its answer. -/
lemma Concludes.listing (h : Concludes definitions element separator config input count s o) :
    (Goal.listing element separator config input s count).Yields definitions o := by
  rw [Goal.yields_iff, Goal.plan, Plan.ofListing]
  cases h with
  | ended ends =>
    split
    · next below =>
      cases ends with
      | full full => cases below.symm.trans full
      | rejected yields => exact ⟨_, yields, rfl⟩
      | idle separates yields same =>
        refine ⟨_, separates, _, yields, ?_⟩
        simp only [if_pos same]
        rfl
      | bare separates rejects same =>
        refine ⟨_, separates, _, rejects, ?_⟩
        simp only [if_pos same]
        rfl
    · rfl
  | trailing dangles below allowed =>
    rw [if_pos (belowMax_eq_true_iff.2 below)]
    refine ⟨_, dangles.separates, _, dangles.rejects, ?_⟩
    simp only [if_neg dangles.other, allowed]
    rfl
  | refused dangles below forbidden =>
    rw [if_pos (belowMax_eq_true_iff.2 below)]
    refine ⟨_, dangles.separates, _, dangles.rejects, ?_⟩
    simp only [if_neg dangles.other, forbidden]
    rfl

/-- A series comes to the answer that it comes to after some rounds. -/
lemma Further.listing_of_listing (h : Further definitions element separator n pieces s s')
    (room : ∀ m ∈ config.max, count + n ≤ m)
    (ho : (Goal.listing element separator config input s' (count + n)).Yields definitions o) :
    (Goal.listing element separator config input s count).Yields definitions o := by
  induction h generalizing count with
  | zero s => exact ho
  | @succ n pieces s c s' c' s'' s''' separates yields other _ ih =>
    rw [Goal.yields_iff, Goal.plan, Plan.ofListing, if_pos (belowMax_of_succ_le room)]
    refine ⟨_, separates, _, yields, ?_⟩
    simp only [if_neg other]
    have sum : count + (n + 1) = count + 1 + n := by omega
    rw [sum] at room ho
    exact ih room ho

/-- The answers of a series: it has no room for elements, or has no first element, or is told by its
rounds. -/
lemma Goal.yields_series_iff :
    (Goal.apply (.series element separator config) input).Yields definitions o ↔
    (config.max = some 0 ∧ o = .empty input) ∨
    (config.max ≠ some 0 ∧ ∃ e, (Goal.apply element input).Yields definitions (.rejected e) ∧
      o = if config.min = 0 then .empty input else .rejected e) ∨
    (config.max ≠ some 0 ∧ ∃ n pieces s,
      Elements definitions element separator (n + 1) pieces input s ∧
      (∀ m ∈ config.max, n + 1 ≤ m) ∧
      Concludes definitions element separator config input (n + 1) s o) := by
  refine ⟨Goal.Yields.series_cases, ?_⟩
  rw [Goal.yields_iff, Goal.plan, Pattern.plan]
  rintro (⟨full, rfl⟩ | ⟨room, e, rejects, rfl⟩ | ⟨room, n, pieces, s, elements, bound, concludes⟩)
  · rw [if_pos full]
    rfl
  · rw [if_neg room]
    exact ⟨_, rejects, rfl⟩
  · rw [if_neg room]
    cases elements with
    | cons yields further =>
      rw [Nat.add_comm] at bound concludes
      exact ⟨_, yields, further.listing_of_listing bound concludes.listing⟩

/-- `o` is an answer of the series with `config` that treats a separator with no element behind it
as `trailing` says. -/
def Series.Answers (definitions : ρ → Resolution ρ) (element separator : Pattern ρ)
    (config : Config) (input : Slice) (trailing : Trailing) (o : Outcome) : Prop :=
  (Goal.apply (.series element separator (config.withTrailing trailing)) input).Yields
    definitions o

/-- What the series that forbids a separator behind its elements and the one that allows it answer
after the same rounds. -/
inductive Series.Policies (definitions : ρ → Resolution ρ) (element separator : Pattern ρ)
    (config : Config) (input : Slice) : Outcome → Outcome → Prop where
  | same (o : Outcome) : Policies definitions element separator config input o o
  | dangling {n : Nat} {pieces : List Slice} {piece s s' : Slice} {e : Rejection} :
    Elements definitions element separator (n + 1) pieces input s →
    Dangles definitions element separator piece s s' e →
    Policies definitions element separator config input
      (.rejected (e.shifted (input.progress s'))) (.ofSeries config.min input s' (n + 1))

/-- Where a series with one of the policies comes to an answer, so does the one with the other. -/
lemma Concludes.policies {trailing : Series.Trailing}
    (elements : Elements definitions element separator (n + 1) pieces input s)
    (h : Concludes definitions element separator (config.withTrailing trailing) input (n + 1) s o) :
    ∃ f a, Series.Policies definitions element separator config input f a ∧
      Concludes definitions element separator (config.withTrailing .forbidden) input (n + 1) s f ∧
      Concludes definitions element separator (config.withTrailing .allowed) input (n + 1) s a := by
  cases h with
  | ended ends => exact ⟨_, _, .same _, .ended ends, .ended ends⟩
  | trailing dangles below _ | refused dangles below _ =>
    exact ⟨_, _, .dangling elements dangles, .refused dangles below rfl,
      .trailing dangles below rfl⟩

namespace Series

/-- A series that has an answer with one of the policies has one with each. -/
lemma Answers.policies {trailing : Trailing}
    (h : Answers definitions element separator config input trailing o) :
    ∃ f a, Policies definitions element separator config input f a ∧
      Answers definitions element separator config input .forbidden f ∧
      Answers definitions element separator config input .allowed a := by
  simp only [Answers, Goal.yields_series_iff] at h ⊢
  obtain ⟨full, rfl⟩ | ⟨room, rejects⟩ | ⟨room, n, pieces, s, elements, bound, concludes⟩ := h
  · exact ⟨_, _, .same _, .inl ⟨full, rfl⟩, .inl ⟨full, rfl⟩⟩
  · exact ⟨o, o, .same o, .inr (.inl ⟨room, rejects⟩), .inr (.inl ⟨room, rejects⟩)⟩
  · obtain ⟨f, a, policies, hf, ha⟩ := concludes.policies elements
    exact ⟨f, a, policies, .inr (.inr ⟨room, n, pieces, s, elements, bound, hf⟩),
      .inr (.inr ⟨room, n, pieces, s, elements, bound, ha⟩)⟩

/-- A match ends in a separator that consumes something and has no element behind it, `e` being what
the element answers there. The text consumed is that of the elements with the separators between
them and of this one, which leaves what the match leaves. -/
def EndsInSeparator (definitions : ρ → Resolution ρ) (element separator : Pattern ρ)
    (input consumed remainder : Slice) (e : Rejection) : Prop :=
  ∃ n pieces s piece, Elements definitions element separator (n + 1) pieces input s ∧
    consumed.chars = pieces.flatMap Slice.chars ++ piece.chars ∧ piece.isEmpty = false ∧
    (Goal.apply separator s).Yields definitions (.matched piece remainder) ∧
    (Goal.apply element remainder).Yields definitions (.rejected e)

section Honest

variable {consumed remainder : Slice} {e e' : Rejection} {t : List Char}
  (he : element.Honest definitions) (hs : separator.Honest definitions) (spells : input.Spells t)

include he hs spells

/-- A match with a separator behind its elements ends behind that separator. -/
lemma endsInSeparator_of_dangles {piece : Slice}
    (elements : Elements definitions element separator (n + 1) pieces input s)
    (dangles : Dangles definitions element separator piece s s' e)
    (h : .fromRemainder input s' = Outcome.matched consumed remainder) :
    EndsInSeparator definitions element separator input consumed remainder e ∧
      input.progress s' = consumed.size := by
  obtain ⟨separates, other, rejects⟩ := dangles
  obtain rfl := Outcome.eq_of_fromRemainder h
  obtain ⟨_, before⟩ := elements.cut he hs spells
  obtain ⟨bs, behind⟩ := hs.cut before.rest separates
  obtain ⟨chars, split⟩ := (before.trans behind).matched h
  refine ⟨⟨n, pieces, s, piece, elements, chars, ?_, separates, rejects⟩,
    Slice.progress_of_splitAt? split⟩
  obtain ⟨as, _, _, size, hc, _⟩ := before.rest.of_splitAt? (hs s _ piece _ before.rest separates)
  refine Bool.eq_false_iff.2 fun empty => other ?_
  rw [hc.isEmpty_iff] at empty
  exact (behind.tail.size_eq_iff behind.progress).2 (hc.chars_eq.trans empty)

/-- Both policies give one answer, or one answers as the element behind the separator that the other
one ends in. -/
lemma Policies.cases (h : Policies definitions element separator config input f a) :
    f = a ∨ ∃ e', f = .rejected e' ∧ ∀ consumed remainder, a = .matched consumed remainder →
      ∃ e, EndsInSeparator definitions element separator input consumed remainder e ∧
        e' = e.shifted consumed.size := by
  cases h with
  | same o => exact .inl rfl
  | dangling elements dangles =>
    refine .inr ⟨_, rfl, fun consumed remainder matched => ?_⟩
    obtain ⟨_, rebuilt⟩ := Outcome.matched_of_ofSeries matched
    obtain ⟨ends, size⟩ := endsInSeparator_of_dangles he hs spells elements dangles rebuilt
    rw [size]
    exact ⟨_, ends, rfl⟩

end Honest

/-- Let the element and the separator of a series split what they are given. Then the series that
forbids a separator behind its elements has an answer where the one that allows it has one. A match
of the former is one of the latter, and where the latter rejects, so does the former. If only the
latter matches, it ends in a separator, and the former answers as the element does behind it. -/
theorem trailing_policies {t : List Char} (he : element.Honest definitions)
    (hs : separator.Honest definitions) (spells : input.Spells t) :
    ((∃ f, Answers definitions element separator config input .forbidden f) ↔
      ∃ a, Answers definitions element separator config input .allowed a) ∧
    ∀ f a, Answers definitions element separator config input .forbidden f →
      Answers definitions element separator config input .allowed a →
      (∀ consumed remainder, f = .matched consumed remainder → a = f) ∧
      (∀ e, a = .rejected e → ∃ e', f = .rejected e') ∧
      ∀ e' consumed remainder, f = .rejected e' → a = .matched consumed remainder →
        ∃ e, EndsInSeparator definitions element separator input consumed remainder e ∧
          e' = e.shifted consumed.size := by
  refine ⟨⟨fun ⟨f, hf⟩ => ?_, fun ⟨a, ha⟩ => ?_⟩, fun f a hf ha => ?_⟩
  · obtain ⟨_, a, _, _, ha⟩ := hf.policies
    exact ⟨a, ha⟩
  · obtain ⟨f, _, _, hf, _⟩ := ha.policies
    exact ⟨f, hf⟩
  · obtain ⟨f', a', policies, hf', ha'⟩ := hf.policies
    obtain rfl := Goal.Yields.unique hf hf'
    obtain rfl := Goal.Yields.unique ha ha'
    obtain rfl | ⟨e', rfl, matched⟩ := policies.cases he hs spells
    · refine ⟨fun _ _ _ => rfl, fun e rejected => ⟨e, rejected⟩, fun e' c r rejected matched => ?_⟩
      cases rejected.symm.trans matched
    · refine ⟨fun _ _ matched => ?_, fun _ _ => ⟨e', rfl⟩, fun _ c r eq => ?_⟩
      · cases matched
      · cases eq
        exact matched c r

/-- Digits with commas between them, on a digit with a comma behind it. -/
theorem trailing_policies_digits :
    let series := Answers (fun _ : Unit => .dropped) (.ofClass .digit) (.char ',') {}
      (.whole 0 ['1', ','])
    (Pattern.ofClass .digit).Honest (fun _ : Unit => .dropped) ∧
    (Pattern.char ',').Honest (fun _ : Unit => .dropped) ∧
    series .forbidden (.refuseAt .noInput 2) ∧
    series .allowed (.matched (.whole 0 ['1', ',']) ⟨0, 2, 0, []⟩) ∧
    ∃ e, EndsInSeparator (fun _ : Unit => .dropped) (.ofClass .digit) (.char ',')
      (.whole 0 ['1', ',']) (.whole 0 ['1', ',']) ⟨0, 2, 0, []⟩ e ∧
      { cause := .noInput, offset := 2 } = e.shifted 2 := by
  intro series
  have digit := Pattern.honest_satisfy (fun _ : Unit => .dropped) CharClass.digit.accepts
  have comma := Pattern.honest_satisfy (fun _ : Unit => .dropped) (· == ',')
  have forbids : series .forbidden (.refuseAt .noInput 2) := ⟨5, rfl⟩
  have allows : series .allowed (.matched (.whole 0 ['1', ',']) ⟨0, 2, 0, []⟩) := ⟨5, rfl⟩
  obtain ⟨_, differ⟩ := trailing_policies digit comma (Slice.spells_whole 0 _)
  obtain ⟨_, _, ends⟩ := differ _ _ forbids allows
  exact ⟨digit, comma, forbids, allows, ends _ _ _ rfl rfl⟩

end Series

end Recognizer
