import Recognizer.Proofs.Json.Recognition

/-!
# More permissive grammars

Options that permit more take nothing away (`Options.Within`): each text of the grammar stays one,
each step that reads a character stays as it is, and reading only goes on further. So a match is not
changed by the further alternatives, and a rejection does not move backwards
(`recognize_widened`).
-/

namespace Recognizer.Json

open Text

variable {o o' : Options} {s : Start} {t : List Char}

/-- All that the options `o` permit, `o'` permit as well. -/
structure Options.Within (o o' : Options) : Prop where
  literals : o.literals = true → o'.literals = true
  surroundingWhitespace : o.surroundingWhitespace = true → o'.surroundingWhitespace = true
  strictStrings : o'.strictStrings = true → o.strictStrings = true

namespace Options

/-- Literals allow more. -/
lemma within_literals (o : Options) : (o.withLiterals false).Within (o.withLiterals true) :=
  ⟨fun _ => rfl, id, id⟩

/-- So does surrounding whitespace. -/
lemma within_surroundingWhitespace (o : Options) :
    (o.withSurroundingWhitespace false).Within (o.withSurroundingWhitespace true) :=
  ⟨id, fun _ => rfl, id⟩

/-- And strings that are not strict. -/
lemma within_strictStrings (o : Options) :
    (o.withStrictStrings true).Within (o.withStrictStrings false) :=
  ⟨id, id, fun _ => rfl⟩

/-- What may stand in strict strings may stand in others. -/
lemma Within.plain (h : o.Within o') {c : Char} (hc : o.plain.accepts c = true) :
    o'.plain.accepts c = true := by
  have unstrict : CharClass.unescaped.accepts c = true → CharClass.plain.accepts c = true := by
    intro h
    rw [CharClass.accepts, Bool.and_eq_true] at h
    exact h.1
  rw [Options.plain] at hc ⊢
  by_cases strict' : o'.strictStrings = true
  · rw [if_pos (h.strictStrings strict')] at hc
    rwa [if_pos strict']
  · rw [if_neg strict']
    split at hc
    · exact unstrict hc
    · exact hc

end Options

/-- A wider class leaves the body of a string what it is. -/
lemma IsStringBody.mono {k k' : CharClass} (h : ∀ c, k.accepts c = true → k'.accepts c = true)
    (hb : IsStringBody k t) : IsStringBody k' t := by
  induction hb with
  | nil => exact .nil
  | plain hc _ ih => exact .plain (h _ hc) ih
  | escape hc _ ih => exact .escape hc ih
  | unicode ha hb hc hd _ ih => exact .unicode ha hb hc hd ih

/-- What is a string stays one. -/
lemma IsString.mono (h : o.Within o') (hs : IsString o.plain t) : IsString o'.plain t := by
  cases hs with
  | intro body => exact .intro (body.mono fun _ => h.plain)

/-- What is derived stays derived. -/
lemma Generates.mono (h : o.Within o') {symbol : Symbol} (hg : Generates o symbol t) :
    Generates o' symbol t := by
  induction hg with
  | string hs => exact .string (hs.mono h)
  | number hn => exact .number hn
  | compound b _ ih => exact .compound b ih
  | literal enabled word => exact .literal (h.literals enabled) word
  | empty b hw => exact .empty b hw
  | filled b _ ih => exact .filled b ih
  | last b _ ih => exact .last b ih
  | more b _ _ ih ihs => exact .more b ih ihs
  | element hw _ hw' ih => exact .element hw ih hw'
  | member hw₁ hk hw₂ hw₃ _ hw₄ ih => exact .member hw₁ (hk.mono h) hw₂ hw₃ ih hw₄

/-- What is a document stays one. -/
lemma IsDocument.mono (h : o.Within o') (hd : IsDocument o t) : IsDocument o' t := by
  cases hd with
  | plain hv => exact .plain (hv.mono h)
  | padded padded hw hv hw' => exact .padded (h.surroundingWhitespace padded) hw (hv.mono h) hw'

/-- What is accepted stays accepted. -/
lemma Start.Accepts.mono (h : o.Within o') {c r : List Char} (ha : s.Accepts o c r) :
    s.Accepts o' c r := by
  cases s with
  | value => exact ⟨ha.1.mono h, ha.2⟩
  | compound b => exact Generates.mono h ha
  | document => exact ⟨ha.1.mono h, ha.2⟩

namespace Position

variable {padded padded' : Bool} {σ : List Bracket} {q q' : Position} {c : Char}
  {as bs cs : List Char}

/-- Where whitespace is allowed it stays so. -/
lemma allowsBlank_mono (hp : padded = true → padded' = true)
    (h : allowsBlank padded σ = true) : allowsBlank padded' σ = true := by
  cases σ with
  | nil => exact hp h
  | cons b σ => rfl

/-- What is read behind a value is read the same. -/
lemma stepBehind_mono (hp : padded = true → padded' = true)
    (h : stepBehind padded σ c = some q) : stepBehind padded' σ c = some q := by
  rw [stepBehind.eq_def] at h ⊢
  split
  · next blank =>
    rw [if_pos blank] at h
    split at h
    · next allowed => rwa [if_pos (allowsBlank_mono hp allowed)]
    · cases h
  · next blank => rwa [if_neg blank] at h

/-- Literals are started the same. -/
lemma startLiteral_mono (ho : o.Within o') (h : startLiteral o c σ = some q) :
    startLiteral o' c σ = some q := by
  rw [startLiteral] at h ⊢
  split at h
  · next enabled => rwa [if_pos (ho.literals enabled)]
  · cases h

/-- Values are started the same. -/
lemma startValue_mono (ho : o.Within o') (h : startValue o σ c = some q) :
    startValue o' σ c = some q := by
  rw [startValue.eq_def] at h ⊢
  split_ifs at h ⊢
  · exact h
  · exact h
  · exact h
  · exact h
  · cases first : NumberPlace.first c with
    | some place => rwa [first] at h
    | none =>
      rw [first] at h
      exact startLiteral_mono ho h

/-- What is read in a string is read the same. -/
lemma stepString_mono (ho : o.Within o') {place : StringPlace} {isKey : Bool}
    (h : stepString o place isKey σ c = some q) : stepString o' place isKey σ c = some q := by
  cases place with
  | body =>
    rw [stepString] at h ⊢
    split_ifs at h with quote backslash plain
    · rwa [if_pos quote]
    · rwa [if_neg quote, if_pos backslash]
    · rwa [if_neg quote, if_neg backslash, if_pos (ho.plain plain)]
  | escaped => exact h
  | hex more => exact h

/-- A step is still possible, and leads to the same position. -/
lemma step_mono (ho : o.Within o') (hp : padded = true → padded' = true)
    (h : step o padded q c = some q') : step o' padded' q c = some q' := by
  cases q with
  | opening b => exact h
  | value fresh σ =>
    rw [step] at h ⊢
    split_ifs at h with blank allowed closing
    · rwa [if_pos blank, if_pos (allowsBlank_mono hp allowed)]
    · rwa [if_neg blank, if_pos closing]
    · rw [if_neg blank, if_neg closing]
      exact startValue_mono ho h
  | key fresh σ => exact h
  | colon σ => exact h
  | after σ => exact stepBehind_mono hp h
  | string place isKey σ => exact stepString_mono ho h
  | number place σ =>
    rw [step] at h ⊢
    cases next : place.next c with
    | some place' => rwa [next] at h
    | none =>
      rw [next] at h
      simp only at h ⊢
      split at h
      · next final =>
        rw [if_pos final]
        exact stepBehind_mono hp h
      · cases h
  | literal seen next rest σ => exact h

/-- Whole texts are read the same. -/
lemma read_mono (ho : o.Within o') (hp : padded = true → padded' = true)
    (h : read o padded q cs = some q') : read o' padded' q cs = some q' := by
  induction cs generalizing q with
  | nil => exact h
  | cons c cs ih =>
    obtain ⟨q₁, step, h⟩ := Option.bind_eq_some_iff.1 h
    rw [read_cons (step_mono ho hp step)]
    exact ih h

/-- Where more is permitted, a text does not stop earlier. -/
lemma Stops.offset_mono {p : Position} {n n' : Nat} (ho : o.Within o')
    (hp : padded = true → padded' = true) (h : p.Stops o padded cs q n)
    (h' : p.Stops o' padded' cs q' n') : n ≤ n' := by
  obtain ⟨as, bs, rfl, ⟨hr, _⟩, hn⟩ := h
  obtain ⟨as', bs', split, halts', hn'⟩ := h'
  have hr := read_mono ho hp hr
  -- What could be read before is a leading part of what can be read now.
  obtain ⟨mid, rfl⟩ : ∃ mid, as' = as ++ mid := by
    rcases List.append_eq_append_iff.1 split with ⟨mid, rfl, rfl⟩ | ⟨mid, rfl, rfl⟩
    · exact ⟨mid, rfl⟩
    · rw [halts'.eq_nil hr]
      exact ⟨[], by simp⟩
  have le := backlog_le_of_read ((read_append_of_read hr mid).symm.trans halts'.read)
  rw [byteLength_append] at hn'
  omega

end Position

/-- A padded rule stays padded. -/
lemma Start.padded_mono (h : o.Within o') (s : Start) (hp : s.padded o = true) :
    s.padded o' = true := by
  cases s with
  | document => exact h.surroundingWhitespace hp
  | _ => cases hp

variable {input consumed remainder : Slice}

/-- What is matched is matched with the same parts. -/
lemma recognize_matched_mono (h : o.Within o') (hi : input.Spells t)
    (hm : recognize o s.entry false input = .ok (.matched consumed remainder)) :
    recognize o' s.entry false input = .ok (.matched consumed remainder) := by
  obtain ⟨result, e⟩ := Start.result_of_recognize hi hm
  obtain ⟨split, accepts⟩ := result.accepts
  obtain ⟨v, ha, _⟩ := s.exists_answers o' t
  -- The verdict on the text is the same, hence so is the outcome.
  cases (parse_eq ha).symm.trans (parse_eq_taken.2 ⟨split, accepts.mono h⟩)
  exact (recognize_eq ha hi).trans (congrArg Except.ok e.symm)

/-- What is rejected by both is rejected no earlier by the wider options. -/
lemma recognize_offset_mono (h : o.Within o') (hi : input.Spells t) {e e' : Rejection}
    (he : recognize o s.entry false input = .ok (.rejected e))
    (he' : recognize o' s.entry false input = .ok (.rejected e')) : e.offset ≤ e'.offset := by
  obtain ⟨⟨q, stops, _⟩, _⟩ := Start.result_of_recognize hi he
  obtain ⟨⟨q', stops', _⟩, _⟩ := Start.result_of_recognize hi he'
  exact stops.offset_mono h (s.padded_mono h) stops'

/-- A match under `o` is the match under `o'`, and a rejection under both is not earlier under
`o'`. -/
def Widened (o o' : Options) (s : Start) (input : Slice) : Prop :=
  (∀ consumed remainder, recognize o s.entry false input = .ok (.matched consumed remainder) →
    recognize o' s.entry false input = .ok (.matched consumed remainder)) ∧
  ∀ e e', recognize o s.entry false input = .ok (.rejected e) →
    recognize o' s.entry false input = .ok (.rejected e') → e.offset ≤ e'.offset

/-- Wider options widen what is recognized. -/
lemma widened_of_within (h : o.Within o') (s : Start) (hi : input.Spells t) :
    Widened o o' s input :=
  ⟨fun _ _ => recognize_matched_mono h hi, fun _ _ => recognize_offset_mono h hi⟩

/-- With literals, without strict strings and with whitespace around documents, a text that matches
has the same match as it has otherwise, and a text that is rejected both ways is not rejected
earlier. -/
theorem recognize_widened (o : Options) (s : Start) (t : List Char) :
    Widened (o.withLiterals false) (o.withLiterals true) s (.whole 0 t) ∧
    Widened (o.withStrictStrings true) (o.withStrictStrings false) s (.whole 0 t) ∧
    Widened (o.withSurroundingWhitespace false) (o.withSurroundingWhitespace true) s
      (.whole 0 t) := by
  have spells := Slice.spells_whole 0 t
  exact ⟨widened_of_within o.within_literals s spells,
    widened_of_within o.within_strictStrings s spells,
    widened_of_within o.within_surroundingWhitespace s spells⟩

/-- In `[true` the literal is refused if there are none, and the end of the list is missing
otherwise. -/
theorem recognize_widened_true :
    recognize (Options.withLiterals {} false) .value false (.whole 0 "[true".toList) =
      .ok (.rejected { cause := .noAlternative, offset := 1, context := some "array" }) ∧
    recognize (Options.withLiterals {} true) .value false (.whole 0 "[true".toList) =
      .ok (.rejected { cause := .noInput, offset := 5, context := some "array" }) ∧
    1 ≤ 5 := by
  have off : recognize (Options.withLiterals {} false) .value false (.whole 0 "[true".toList) =
      .ok (.rejected { cause := .noAlternative, offset := 1, context := some "array" }) :=
    (recognize_eq_ok_iff (Start.value.matcher_entry _)).2 ⟨60, by decide +kernel⟩
  have on : recognize (Options.withLiterals {} true) .value false (.whole 0 "[true".toList) =
      .ok (.rejected { cause := .noInput, offset := 5, context := some "array" }) :=
    (recognize_eq_ok_iff (Start.value.matcher_entry _)).2 ⟨60, by decide +kernel⟩
  exact ⟨off, on, (recognize_widened {} .value "[true".toList).1.2 _ _ off on⟩

end Recognizer.Json
