import Recognizer.Proofs.Pattern.Rounds
import Recognizer.Proofs.Text.Tails

/-!
# Parts that answer with other texts

A part of a sequence or a loop may be any function, and answer with slices of another text. It
cannot break the split of the whole: every match is rebuilt from a remainder that ends the input,
and if the parts have been followed to a remainder that does not, the input is rejected
(`Goal.Yields.split_of_combines`). A loop does not follow a last step that gets it nowhere, so what
that step leaves does not matter, be it of another text (`idle_step_dropped`).
-/

namespace Recognizer

open Text

variable {ρ : Type} {definitions : ρ → Resolution ρ} {input rest : Slice} {o : Outcome}

namespace Slice

/-- The slice is cut from one of the texts. -/
def CutFrom (texts : Nat → List Char) (s : Slice) : Prop :=
  (whole s.origin (texts s.origin)).between? s.start (s.start + s.size) = some s

/-- So its characters begin where it says. -/
lemma CutFrom.exists_append {texts : Nat → List Char} {s : Slice} (h : s.CutFrom texts) :
    ∃ as, texts s.origin = as ++ s.ahead ∧ byteLength as = s.start := by
  rw [CutFrom, between?, if_pos (Nat.le_add_right _ _)] at h
  obtain ⟨⟨taken, rest⟩, hs, h⟩ := Option.bind_eq_some_iff.1 h
  obtain ⟨⟨taken', rest'⟩, hs', h⟩ := Option.map_eq_some_iff.1 h
  obtain ⟨_, drop, _, _, _, _⟩ := splitAt?_eq_some_iff.1 hs
  obtain ⟨_, _, ht, _, _, _⟩ := splitAt?_eq_some_iff.1 hs'
  have same : rest.ahead = s.ahead := by rw [← h, ht]
  rw [same] at drop
  exact eq_append_of_dropBytes? drop

/-- Of slices of the same texts, one that ends another is what a cut of it leaves. -/
lemma CutFrom.splitAt?_eq {texts : Nat → List Char} {consumed : Slice} (hi : input.CutFrom texts)
    (hr : rest.CutFrom texts) (h : input.before? rest = some consumed) :
    input.splitAt? consumed.size = some (consumed, rest) := by
  rw [before?] at h
  split at h
  · next ends =>
    obtain ⟨origin, stop, size⟩ := ends
    cases h
    obtain ⟨as, text, before⟩ := hi.exists_append
    obtain ⟨bs, text', before'⟩ := hr.exists_append
    rw [origin] at text'
    obtain ⟨mid, rfl⟩ := isPrefixOf_of_byteLength_le (text.symm.trans text') (by omega)
    rw [byteLength_append] at before'
    have ahead : input.ahead = mid ++ rest.ahead := by
      have both := text.symm.trans text'
      rw [List.append_assoc] at both
      exact List.append_cancel_left both
    have progress : input.size - rest.size = byteLength mid := by omega
    have drop : dropBytes? (input.size - rest.size) input.ahead = some rest.ahead := by
      rw [ahead, progress, dropBytes?_append]
    exact splitAt?_eq_some_iff.2
      ⟨Nat.sub_le _ _, drop, rfl, origin, by simp only; omega, by simp only; omega⟩
  · cases h

end Slice

/-- A match is what comes before a remainder that ends the input. -/
def Outcome.Rebuilds (input : Slice) : Outcome → Prop
  | .matched consumed remainder => input.before? remainder = some consumed
  | .rejected _ => True

namespace Outcome

/-- An empty match leaves the input. -/
lemma rebuilds_empty (input : Slice) : (empty input).Rebuilds input := by
  have ends : input.EndsWith input := ⟨rfl, rfl, Nat.le_refl _⟩
  rw [empty, Rebuilds, Slice.before?, if_pos ends, Nat.sub_self]
  rfl

/-- A match up to a tail is the input up to the tail. -/
lemma rebuilds_fromRemainder (input rest : Slice) : (fromRemainder input rest).Rebuilds input := by
  rw [fromRemainder]
  split
  · next before => exact before
  · trivial

/-- Up to anything else there is no match. -/
lemma exists_rejected_of_fromRemainder (h : ¬ input.EndsWith rest) :
    ∃ e, fromRemainder input rest = .rejected e := by
  rw [fromRemainder, Slice.before?, if_neg h]
  exact ⟨_, rfl⟩

/-- A repetition ends as a match up to its place, or is rejected. -/
lemma ofRepeated_cases (min count : Nat) (input rest : Slice) (stoppedBy : Option Rejection) :
    ofRepeated min input rest count stoppedBy = .fromRemainder input rest ∨
      ∃ e, ofRepeated min input rest count stoppedBy = .rejected e := by
  rw [ofRepeated.eq_def]
  split
  · exact .inl rfl
  · cases stoppedBy with
    | none => exact .inr ⟨_, rfl⟩
    | some e => exact .inr ⟨_, rfl⟩

/-- So does a series. -/
lemma ofSeries_cases (min count : Nat) (input rest : Slice) :
    ofSeries min input rest count = .fromRemainder input rest ∨
      ∃ e, ofSeries min input rest count = .rejected e := by
  rw [ofSeries]
  split
  · exact .inr ⟨_, rfl⟩
  · exact .inl rfl

end Outcome

/-- The pattern puts together what its parts match, one behind the other. -/
def Pattern.Combines : Pattern ρ → Prop
  | concat _ | implies _ _ | repeated _ _ _ | scan _ _ | series _ _ _ => True
  | satisfy _ | literal _ | endOfInput | firstOf _ | optional _ | label _ _ | context _ _ | refer _
  | custom _ => False

/-- Following its parts, the pattern ends on `rest`. -/
inductive Pattern.EndsOn (definitions : ρ → Resolution ρ) (input rest : Slice) :
    Pattern ρ → Prop where
  | concat {parts : List (Pattern ρ)} : Leads definitions parts input rest →
    EndsOn definitions input rest (.concat parts)
  | implies {condition consequence : Pattern ρ} :
    Leads definitions [condition, consequence] input rest →
    EndsOn definitions input rest (.implies condition consequence)
  | repeated {body : Pattern ρ} {n : Nat} (min : Nat) {max : Option Nat} :
    Rounds definitions body n input rest → (∀ m ∈ max, n ≤ m) →
    EndsRounds definitions body max n rest → EndsOn definitions input rest (.repeated body min max)
  | scan {stop body : Pattern ρ} {s c : Slice} : Skips definitions stop body input s →
    (Goal.apply stop s).Yields definitions (.matched c rest) →
    EndsOn definitions input rest (.scan stop body)
  | series {element separator : Pattern ρ} {config : Series.Config} {n : Nat}
    {pieces : List Slice} : Elements definitions element separator (n + 1) pieces input rest →
    (∀ m ∈ config.max, n + 1 ≤ m) →
    EndsElements definitions element separator config.max (n + 1) rest →
    EndsOn definitions input rest (.series element separator config)
  /-- A last separator belongs to the series where that is allowed. -/
  | trailing {element separator : Pattern ρ} {config : Series.Config} {n : Nat}
    {pieces : List Slice} {s c : Slice} {e : Rejection} :
    Elements definitions element separator (n + 1) pieces input s →
    Dangles definitions element separator c s rest e → (∀ m ∈ config.max, n + 1 < m) →
    config.trailing = .allowed → EndsOn definitions input rest (.series element separator config)

/-- Following its parts to the end, a pattern rebuilds what it matches from what is left, if it does
not reject. -/
lemma Pattern.EndsOn.answer {p : Pattern ρ} (h : p.EndsOn definitions input rest)
    (ho : (Goal.apply p input).Yields definitions o) :
    o = .fromRemainder input rest ∨ ∃ e, o = .rejected e := by
  -- What has been followed by hand is where the run of the pattern gets to as well.
  cases h with
  | concat leads => exact .inl (leads.eq_fromRemainder (Goal.yields_iff.1 ho))
  | implies leads =>
    obtain ⟨o', yields, ho⟩ := Goal.yields_iff.1 ho
    cases leads with
    | cons first leads =>
      cases first.unique yields
      obtain ⟨o', yields, ho⟩ := ho
      cases leads with
      | cons second leads =>
        cases second.unique yields
        cases leads
        exact .inl ho.symm
  | @repeated body n min max rounds room ends =>
    have goal : (Goal.repeating body min max input input 0).Yields definitions o :=
      Goal.yields_iff.1 ho
    rw [← Nat.zero_add n] at room ends
    obtain ⟨stoppedBy, eq⟩ := ends.eq_ofRepeated (rounds.repeating room goal)
    rw [eq]
    exact Outcome.ofRepeated_cases _ _ _ _ _
  | scan skips stops =>
    have goal : (Goal.scanning _ _ input input).Yields definitions o := Goal.yields_iff.1 ho
    obtain ⟨o', stops', ho⟩ := Goal.yields_iff.1 (skips.scanning goal)
    cases stops.unique stops'
    exact .inl ho.symm
  | series elements room ends =>
    rw [ends.eq_ofSeries (elements.listing room ho)]
    exact Outcome.ofSeries_cases _ _ _ _
  | trailing elements dangles room allowed =>
    have listing := elements.listing (fun m hm => Nat.le_of_lt (room m hm)) ho
    rw [dangles.eq_ofSeries room allowed listing]
    exact Outcome.ofSeries_cases _ _ _ _

/-- Apart from empty matches and rejections, every answer comes about in this way. -/
lemma Goal.Yields.combines_cases {p : Pattern ρ} (hp : p.Combines)
    (h : (Goal.apply p input).Yields definitions o) :
    (∃ rest, p.EndsOn definitions input rest ∧ o = .fromRemainder input rest) ∨
      o = .empty input ∨ ∃ e, o = .rejected e := by
  -- The rounds behind an answer are known; it remains to name the tail that they lead to.
  have reaches := Goal.yields_iff.1 h
  cases p with
  | concat parts =>
    obtain ⟨rest, leads, eq⟩ | rejected := Plan.ofParts_cases reaches
    · exact .inl ⟨rest, .concat leads, eq⟩
    · exact .inr (.inr rejected)
  | implies condition consequence =>
    obtain ⟨o', first, reaches⟩ := reaches
    cases o' with
    | rejected e => exact .inr (.inl reaches.symm)
    | matched c s' =>
      obtain ⟨o', second, reaches⟩ := reaches
      cases o' with
      | rejected e => exact .inr (.inr ⟨_, reaches.symm⟩)
      | matched c' rest =>
        exact .inl ⟨rest, .implies (.cons first (.cons second (.nil _))), reaches.symm⟩
  | repeated body min max =>
    have loop : (Goal.repeating body min max input input 0).Yields definitions o := reaches
    obtain ⟨n, rest, rounds, bound, ends, stoppedBy, eq⟩ := loop.traces
    rw [Nat.zero_add] at bound ends eq
    obtain answer | rejected := Outcome.ofRepeated_cases min n input rest stoppedBy
    · have room := bound fun m _ => Nat.zero_le m
      exact .inl ⟨rest, .repeated min rounds room ends, eq.trans answer⟩
    · obtain ⟨e, he⟩ := rejected
      exact .inr (.inr ⟨e, eq.trans he⟩)
  | scan stop body =>
    have loop : (Goal.scanning stop body input input).Yields definitions o := reaches
    obtain ⟨s, skips, ⟨c, rest, stops, eq⟩ | rejected⟩ := loop.traces
    · exact .inl ⟨rest, .scan skips stops, eq⟩
    · exact .inr (.inr rejected)
  | series element separator config =>
    obtain ⟨_, empty⟩ | ⟨_, e, _, eq⟩ | ⟨_, n, pieces, s, elements, room, concludes⟩ :=
      h.series_cases
    · exact .inr (.inl empty)
    · split at eq
      · exact .inr (.inl eq)
      · exact .inr (.inr ⟨e, eq⟩)
    · cases concludes with
      | ended ends =>
        obtain answer | rejected := Outcome.ofSeries_cases config.min (n + 1) input s
        · exact .inl ⟨s, .series elements room ends, answer⟩
        · exact .inr (.inr rejected)
      | @trailing c rest e dangles below allowed =>
        obtain answer | rejected := Outcome.ofSeries_cases config.min (n + 1) input rest
        · exact .inl ⟨rest, .trailing elements dangles below allowed, answer⟩
        · exact .inr (.inr rejected)
      | refused dangles below forbidden => exact .inr (.inr ⟨_, rfl⟩)
  | _ => exact hp.elim

/-- Whatever its parts answer, a sequence or a loop matches what comes before a remainder that ends
the very input it was given, which for slices of texts is a split of the input. A match that is not
empty is what following the parts ends on; where that does not end the input, because it is of
another text for instance, the input is rejected. -/
theorem Goal.Yields.split_of_combines {p : Pattern ρ} (hp : p.Combines)
    (h : (Goal.apply p input).Yields definitions o) :
    (∀ consumed remainder, o = .matched consumed remainder →
      input.before? remainder = some consumed ∧
      (∀ texts, input.CutFrom texts → remainder.CutFrom texts →
        input.splitAt? consumed.size = some (consumed, remainder)) ∧
      (o = .empty input ∨ p.EndsOn definitions input remainder)) ∧
    ∀ rest, p.EndsOn definitions input rest → ¬ input.EndsWith rest → ∃ e, o = .rejected e := by
  constructor
  · intro consumed remainder eq
    have rebuilds : o.Rebuilds input ∧
        (o = .empty input ∨ p.EndsOn definitions input remainder) := by
      obtain ⟨rest, ends, answer⟩ | empty | ⟨e, rejected⟩ := h.combines_cases hp
      · have same : remainder = rest := Outcome.eq_of_fromRemainder (answer.symm.trans eq)
        rw [same, answer]
        exact ⟨Outcome.rebuilds_fromRemainder input rest, .inr ends⟩
      · rw [empty]
        exact ⟨Outcome.rebuilds_empty input, .inl rfl⟩
      · cases rejected.symm.trans eq
    rw [eq] at rebuilds ⊢
    obtain ⟨before, ends⟩ := rebuilds
    exact ⟨before, fun texts hi hr => hi.splitAt?_eq hr before, ends⟩
  · intro rest ends foreign
    obtain answer | rejected := ends.answer h
    · rw [answer]
      exact Outcome.exists_rejected_of_fromRemainder foreign
    · exact rejected

/-- A part that leaves another text, which is `ba`. -/
def leavesOther : Pattern Unit :=
  .stray (.whole 1 []) (.whole 2 ['b', 'a'])

/-- On `ba`, a sequence is led to the end `a` of that other text, and rejects although the input
ends with `a` as well. -/
theorem Goal.Yields.split_of_combines_other :
    (Pattern.concat [leavesOther, .char 'b']).Combines ∧
    (Goal.apply (.concat [leavesOther, .char 'b']) (.whole 0 ['b', 'a'])).Yields
      (fun _ => .dropped) (.refuse .foreignRemainder) ∧
    (Pattern.concat [leavesOther, .char 'b']).EndsOn (fun _ => .dropped) (.whole 0 ['b', 'a'])
      ⟨2, 1, 1, ['a']⟩ ∧
    ¬ (Slice.whole 0 ['b', 'a']).EndsWith ⟨2, 1, 1, ['a']⟩ ∧
    ∃ e, Outcome.refuse .foreignRemainder = .rejected e := by
  have combines : (Pattern.concat [leavesOther, .char 'b']).Combines := trivial
  have yields : (Goal.apply (.concat [leavesOther, .char 'b']) (.whole 0 ['b', 'a'])).Yields
      (fun _ => .dropped) (.refuse .foreignRemainder) := ⟨2, rfl⟩
  have first : (Goal.apply leavesOther (.whole 0 ['b', 'a'])).Yields (fun _ => .dropped)
      (.matched (.whole 1 []) (.whole 2 ['b', 'a'])) := ⟨1, rfl⟩
  have second : (Goal.apply (.char 'b') (.whole 2 ['b', 'a'])).Yields (fun _ : Unit => .dropped)
      (.matched ⟨2, 0, 1, ['b', 'a']⟩ ⟨2, 1, 1, ['a']⟩) := ⟨1, rfl⟩
  have ends := Pattern.EndsOn.concat (.cons first (.cons second (.nil _)))
  have foreign : ¬ (Slice.whole 0 ['b', 'a']).EndsWith ⟨2, 1, 1, ['a']⟩ := by decide
  exact ⟨combines, yields, ends, foreign, (yields.split_of_combines combines).2 _ ends foreign⟩

/-- A separator that leaves another text, which is `zzz`. -/
def separatesOther : Pattern Unit :=
  .stray (.whole 1 [',']) (.whole 2 ['z', 'z', 'z'])

/-- On `z,a`, a separator and an element lead a series to the end `zz` of another text. There is as
much left as before them, so the series ends before them and matches. -/
theorem idle_step_dropped :
    Leads (fun _ => .dropped) [.char 'z', separatesOther, .char 'z'] (.whole 0 ['z', ',', 'a'])
      ⟨2, 1, 2, ['z', 'z']⟩ ∧
    ¬ (Slice.whole 0 ['z', ',', 'a']).EndsWith ⟨2, 1, 2, ['z', 'z']⟩ ∧
    (Goal.apply (.series (.char 'z') separatesOther { max := some 2 })
      (.whole 0 ['z', ',', 'a'])).Yields (fun _ => .dropped)
      (.matched ⟨0, 0, 1, ['z', ',', 'a']⟩ ⟨0, 1, 2, [',', 'a']⟩) := by
  have first : (Goal.apply (.char 'z') (.whole 0 ['z', ',', 'a'])).Yields
      (fun _ : Unit => .dropped) (.matched ⟨0, 0, 1, ['z', ',', 'a']⟩ ⟨0, 1, 2, [',', 'a']⟩) :=
    ⟨1, rfl⟩
  have separator : (Goal.apply separatesOther ⟨0, 1, 2, [',', 'a']⟩).Yields (fun _ => .dropped)
      (.matched (.whole 1 [',']) (.whole 2 ['z', 'z', 'z'])) := ⟨1, rfl⟩
  have second : (Goal.apply (.char 'z') (.whole 2 ['z', 'z', 'z'])).Yields
      (fun _ : Unit => .dropped)
      (.matched ⟨2, 0, 1, ['z', 'z', 'z']⟩ ⟨2, 1, 2, ['z', 'z']⟩) := ⟨1, rfl⟩
  exact ⟨.cons first (.cons separator (.cons second (.nil _))), by decide, 3, rfl⟩

end Recognizer
