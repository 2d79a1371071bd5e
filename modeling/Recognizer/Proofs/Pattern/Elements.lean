import Recognizer.Proofs.Pattern.Cuts
import Recognizer.Proofs.Pattern.Rounds
import Recognizer.Proofs.Text.Tails

/-!
# The elements of a series

If the parts of a series split what they are given, the text of a match is put together from the
pieces that its elements and separators consume. There are no more elements than the series may
have and no fewer than it has to have, unless it may have none at all
(`Goal.Yields.series_counts`): then it matches without a look at how many it has to have
(`series_counts_none`).
-/

namespace Recognizer

open Text

variable {ρ : Type} {definitions : ρ → Resolution ρ} {input rest s s' s'' : Slice}
  {as bs cs : List Char}

/-- What a match consumes and leaves are the two parts of the input at a cut. -/
def Pattern.Honest (definitions : ρ → Resolution ρ) (p : Pattern ρ) : Prop :=
  ∀ input t consumed remainder, input.Spells t →
    (Goal.apply p input).Yields definitions (.matched consumed remainder) →
    input.splitAt? consumed.size = some (consumed, remainder)

/-- A character test splits what it is given. -/
lemma Pattern.honest_satisfy (definitions : ρ → Resolution ρ) (accepts : Char → Bool) :
    (satisfy accepts).Honest definitions := by
  intro input _ consumed remainder _ h
  have answer : Outcome.ofChar accepts input = .matched consumed remainder := Goal.yields_iff.1 h
  have explains : (satisfy accepts).Explains definitions input (.ofChar accepts input) :=
    explains_ofChar accepts
  rw [answer] at explains
  exact explains

/-- A regular pattern is honest, if the definitions of rules are regular. -/
lemma Pattern.RegularOver.honest {good : ρ → Prop} {p : Pattern ρ} (hp : p.RegularOver good)
    (hd : ∀ rule q, definitions rule = .defined q → q.Regular) : p.Honest definitions :=
  fun _ _ _ _ _ h => hp.cuts hd h

namespace Slice

/-- A slice has its characters only. -/
lemma Spells.unique (h : s.Spells as) (h' : s.Spells bs) : as = bs :=
  h.chars_eq.symm.trans h'.chars_eq

/-- The slice with the characters `as` and `bs` is cut between them, which leaves `s'`. -/
structure Cut (s s' : Slice) (as bs : List Char) : Prop where
  tail : s.HasTail s'
  progress : s.progress s' = byteLength as
  whole : s.Spells (as ++ bs)
  rest : s'.Spells bs

namespace Cut

/-- Nothing is cut off. -/
lemma refl (h : s.Spells bs) : s.Cut s [] bs :=
  ⟨.refl s, s.progress_self, h, h⟩

/-- One cut comes behind the other. -/
lemma trans (h : s.Cut s' as bs) (h' : s'.Cut s'' cs bs') : s.Cut s'' (as ++ cs) bs' := by
  obtain rfl := h.rest.unique h'.whole
  refine ⟨h.tail.trans h'.tail, h.tail.progress_append h'.tail h.progress h'.progress, ?_, h'.rest⟩
  rw [List.append_assoc]
  exact h.whole

/-- A match that is rebuilt from what a cut leaves has the characters before it. -/
lemma matched {consumed remainder : Slice} (h : s.Cut s' as bs)
    (hm : Outcome.fromRemainder s s' = .matched consumed remainder) :
    consumed.chars = as ∧ s.splitAt? consumed.size = some (consumed, remainder) := by
  obtain ⟨taken, rest, hs, ht, _⟩ := h.whole.splitAt?_eq
  rw [h.tail.fromRemainder_eq, h.progress, Outcome.split, hs] at hm
  cases hm
  have chars := ht.chars_eq
  obtain ⟨_, _, size⟩ := ht
  rw [size] at hs
  exact ⟨chars, hs⟩

end Cut

end Slice

/-- A match of an honest pattern cuts the text that it is given. -/
lemma Pattern.Honest.cut {p : Pattern ρ} (hp : p.Honest definitions) {c : Slice}
    (hs : s.Spells cs) (h : (Goal.apply p s).Yields definitions (.matched c s')) :
    ∃ bs, s.Cut s' c.chars bs := by
  have split := hp s cs c s' hs h
  obtain ⟨as, bs, rfl, size, hc, hr⟩ := hs.of_splitAt? split
  refine ⟨bs, ⟨_, _, split⟩, ?_, ?_, hr⟩
  · rw [Slice.progress_of_splitAt? split, hc.chars_eq, size]
  · rw [hc.chars_eq]
    exact hs

section Series

variable {element separator : Pattern ρ} {n : Nat} {pieces : List Slice}
  (he : element.Honest definitions) (hs : separator.Honest definitions)

include he hs

/-- What further elements consume is a cut. -/
lemma Further.cut (h : Further definitions element separator n pieces s s')
    (spells : s.Spells cs) : ∃ bs, s.Cut s' (pieces.flatMap Slice.chars) bs := by
  induction h generalizing cs with
  | zero s => exact ⟨cs, .refl spells⟩
  | succ separates yields _ _ ih =>
    obtain ⟨bs, cut⟩ := hs.cut spells separates
    obtain ⟨bs', cut'⟩ := he.cut cut.rest yields
    obtain ⟨bs'', cut''⟩ := ih cut'.rest
    simp only [List.flatMap_cons, ← List.append_assoc]
    exact ⟨bs'', (cut.trans cut').trans cut''⟩

/-- The pieces are the text before what is left. -/
lemma Elements.cut (h : Elements definitions element separator n pieces s s')
    (spells : s.Spells cs) : ∃ bs, s.Cut s' (pieces.flatMap Slice.chars) bs := by
  cases h with
  | nil => exact ⟨cs, .refl spells⟩
  | cons yields further =>
    obtain ⟨bs, cut⟩ := he.cut spells yields
    obtain ⟨bs', cut'⟩ := further.cut he hs cut.rest
    rw [List.flatMap_cons]
    exact ⟨bs', cut.trans cut'⟩

/-- The elements and separators behind a match, the text that they consume, and how many elements
there are. A series that may have no elements is not asked how many it has to have. -/
def Series.Counted (definitions : ρ → Resolution ρ) (element separator : Pattern ρ)
    (config : Config) (input consumed remainder : Slice) (k : Nat) : Prop :=
  ∃ pieces s, Elements definitions element separator k pieces input s ∧
    ((remainder = s ∧ consumed.chars = pieces.flatMap Slice.chars) ∨
      (config.trailing = .allowed ∧ 0 < k ∧ ∃ c e,
        Dangles definitions element separator c s remainder e ∧
        consumed.chars = (pieces ++ [c]).flatMap Slice.chars)) ∧
    (config.max ≠ some 0 → config.min ≤ k) ∧ (∀ m ∈ config.max, k ≤ m) ∧
    (k = 0 ↔ config.max = some 0 ∨ ∃ e, (Goal.apply element input).Yields definitions (.rejected e))

variable {config : Series.Config} {consumed remainder : Slice}

omit he hs in
/-- A series that matches has enough elements and matches up to where it ended. -/
lemma Outcome.matched_of_ofSeries {min count : Nat}
    (h : ofSeries min input s count = .matched consumed remainder) :
    min ≤ count ∧ fromRemainder input s = .matched consumed remainder := by
  rw [ofSeries] at h
  split at h
  · cases h
  · next enough => exact ⟨Nat.le_of_not_lt enough, h⟩

omit he hs in
/-- A match without elements. -/
lemma Series.counted_zero (h : Outcome.empty input = .matched consumed remainder)
    (none : config.max = some 0 ∨
      ∃ e, (Goal.apply element input).Yields definitions (.rejected e))
    (enough : config.max ≠ some 0 → config.min = 0) :
    Counted definitions element separator config input consumed remainder 0 := by
  cases h
  refine ⟨[], input, .nil input, .inl ⟨rfl, ?_⟩, fun room => Nat.le_of_eq (enough room),
    fun m _ => Nat.zero_le m, fun _ => none, fun _ => rfl⟩
  exact (Slice.spells_nothing input).chars_eq

/-- A match with elements. -/
lemma Series.counted_of_concludes {cs : List Char} (spells : input.Spells cs)
    (elements : Elements definitions element separator (n + 1) pieces input s)
    (room : config.max ≠ some 0) (bound : ∀ m ∈ config.max, n + 1 ≤ m)
    (h : Concludes definitions element separator config input (n + 1) s
      (.matched consumed remainder)) :
    Counted definitions element separator config input consumed remainder (n + 1) := by
  obtain ⟨bs, cut⟩ := elements.cut he hs spells
  have some : n + 1 = 0 ↔ config.max = Option.some 0 ∨
      ∃ e, (Goal.apply element input).Yields definitions (.rejected e) := by
    refine iff_of_false (Nat.succ_ne_zero n) fun none => ?_
    cases elements with
    | cons yields _ =>
      obtain full | ⟨e, rejects⟩ := none
      · exact room full
      · cases yields.unique rejects
  generalize eq : Outcome.matched consumed remainder = o at h
  cases h with
  | ended _ =>
    obtain ⟨enough, rebuilt⟩ := Outcome.matched_of_ofSeries eq.symm
    obtain rfl := Outcome.eq_of_fromRemainder rebuilt
    exact ⟨pieces, _, elements, .inl ⟨rfl, (cut.matched rebuilt).1⟩, fun _ => enough, bound, some⟩
  | @trailing c s' e dangles below allowed =>
    obtain ⟨enough, rebuilt⟩ := Outcome.matched_of_ofSeries eq.symm
    obtain rfl := Outcome.eq_of_fromRemainder rebuilt
    obtain ⟨bs', cut'⟩ := hs.cut cut.rest dangles.separates
    have text : consumed.chars = (pieces ++ [c]).flatMap Slice.chars := by
      rw [((cut.trans cut').matched rebuilt).1, List.flatMap_append, List.flatMap_singleton]
    exact ⟨pieces, s, elements, .inr ⟨allowed, Nat.succ_pos n, c, e, dangles, text⟩,
      fun _ => enough, bound, some⟩
  | refused _ _ _ => cases eq

end Series

/-- A match of a series whose element and separator split what they are given consists of `k`
elements with separators between them and, where that is allowed, a separator behind them. There are
at most as many elements as may be, and at least as many as have to be unless there may be none. -/
theorem Goal.Yields.series_counts {element separator : Pattern ρ} {config : Series.Config}
    (he : element.Honest definitions) (hs : separator.Honest definitions) {t : List Char}
    (spells : input.Spells t) {consumed remainder : Slice}
    (h : (Goal.apply (.series element separator config) input).Yields definitions
      (.matched consumed remainder)) :
    ∃ k, Series.Counted definitions element separator config input consumed remainder k := by
  obtain ⟨full, empty⟩ | ⟨_, e, rejects, answer⟩ |
    ⟨room, n, pieces, s, elements, bound, concludes⟩ := h.series_cases
  · exact ⟨0, Series.counted_zero empty.symm (.inl full) fun room => absurd full room⟩
  · split at answer
    · next zero => exact ⟨0, Series.counted_zero answer.symm (.inr ⟨e, rejects⟩) fun _ => zero⟩
    · cases answer
  · exact ⟨n + 1, Series.counted_of_concludes he hs spells elements room bound concludes⟩

/-- Two digits with a comma between them. -/
theorem Goal.Yields.series_counts_digits :
    (Pattern.ofClass .digit).Honest (fun _ : Unit => .dropped) ∧
    (Pattern.char ',').Honest (fun _ : Unit => .dropped) ∧
    (Goal.apply (.series (.ofClass .digit) (.char ',') { max := some 2 })
      (.whole 0 ['1', ',', '2', ',', '3'])).Yields (fun _ : Unit => .dropped)
      (.matched ⟨0, 0, 3, ['1', ',', '2', ',', '3']⟩ ⟨0, 3, 2, [',', '3']⟩) ∧
    ∃ k, Series.Counted (fun _ : Unit => .dropped) (.ofClass .digit) (.char ',')
      { max := some 2 } (.whole 0 ['1', ',', '2', ',', '3'])
      ⟨0, 0, 3, ['1', ',', '2', ',', '3']⟩ ⟨0, 3, 2, [',', '3']⟩ k := by
  have digit := Pattern.honest_satisfy (fun _ : Unit => .dropped) CharClass.digit.accepts
  have comma := Pattern.honest_satisfy (fun _ : Unit => .dropped) (· == ',')
  have yields : (Goal.apply (.series (.ofClass .digit) (.char ',') { max := some 2 })
      (.whole 0 ['1', ',', '2', ',', '3'])).Yields (fun _ : Unit => .dropped)
      (.matched ⟨0, 0, 3, ['1', ',', '2', ',', '3']⟩ ⟨0, 3, 2, [',', '3']⟩) := ⟨5, rfl⟩
  exact ⟨digit, comma, yields,
    Goal.Yields.series_counts digit comma (Slice.spells_whole 0 _) yields⟩

/-- With room for no elements a series matches `1` without any, although it has to have one. -/
theorem series_counts_none :
    (Pattern.ofClass .digit).Honest (fun _ : Unit => .dropped) ∧
    (Pattern.char ',').Honest (fun _ : Unit => .dropped) ∧
    (Goal.apply (.series (.ofClass .digit) (.char ',') { min := 1, max := some 0 })
      (.whole 0 ['1'])).Yields (fun _ : Unit => .dropped)
      (.matched ⟨0, 0, 0, ['1']⟩ (.whole 0 ['1'])) ∧
    ∀ k, Series.Counted (fun _ : Unit => .dropped) (.ofClass .digit) (.char ',')
      { min := 1, max := some 0 } (.whole 0 ['1']) ⟨0, 0, 0, ['1']⟩ (.whole 0 ['1']) k →
      ¬ 1 ≤ k := by
  have digit := Pattern.honest_satisfy (fun _ : Unit => .dropped) CharClass.digit.accepts
  have comma := Pattern.honest_satisfy (fun _ : Unit => .dropped) (· == ',')
  refine ⟨digit, comma, ⟨2, rfl⟩, fun k counted => ?_⟩
  obtain ⟨_, _, _, _, _, bound, _⟩ := counted
  exact Nat.not_le_of_lt (Nat.lt_succ_of_le (bound 0 rfl))

end Recognizer
