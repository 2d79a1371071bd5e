import Recognizer.Proofs.Json.Viability

/-!
# Tokens

Numbers and strings are the values that start with certain characters. A pattern that follows the
positions of values behind these takes tokens that nothing goes on with, and refuses a text where
it stops to be the start of a token (`IsToken.result_of_tracks`).
-/

namespace Recognizer.Json

open Text Position

variable {o : Options} {language : List Char → Prop} {starts : Char → Prop} {c r t : List Char}
  {v : Verdict}

/-- Numbers start with a minus sign or a digit. -/
lemma IsNumber.head {s : List Char} (h : IsNumber s) : ∃ d ∈ s.head?, StartsNumber d := by
  obtain ⟨minus, integer, _, _⟩ := h
  cases minus with
  | present => exact ⟨_, rfl, .inl rfl⟩
  | absent =>
    cases integer with
    | zero => exact ⟨_, rfl, .inr rfl⟩
    | digits nonzero _ => exact ⟨_, rfl, .inr (CharClass.digit_of_nonzeroDigit nonzero)⟩

/-- The values of a kind. -/
def Kind.Derives (o : Options) : Kind → List Char → Prop
  | string => IsString o.plain
  | number => IsNumber
  | list b => Generates o (.compound b)
  | literal text => (· = text.toList)

/-- Every value is of a kind, and starts as it does. -/
lemma Generates.exists_kind {s : List Char} (h : Generates o .value s) :
    ∃ k ∈ kinds o, k.Derives o s ∧ ∃ d ∈ s.head?, k.Starts d := by
  cases h with
  | string string =>
    cases string with
    | intro body => exact ⟨.string, by simp [kinds], .intro body, _, rfl, rfl⟩
  | number number => exact ⟨.number, by simp [kinds], number, number.head⟩
  | compound b list =>
    refine ⟨.list b, by cases b <;> simp [kinds], list, b.opening, ?_, rfl⟩
    cases list with
    | empty => rfl
    | filled => rfl
  | literal enabled word =>
    obtain ⟨text, hk, rfl⟩ := Kind.exists_literal enabled word
    obtain ⟨d, next, rest, split⟩ := Kind.exists_cons_of_mem hk
    exact ⟨_, hk, rfl, d, by rw [split]; rfl, by rw [Kind.Starts, split]; rfl⟩

/-- The first character tells what kind of a value there is. -/
lemma Generates.derives {s : List Char} (h : Generates o .value s) {k : Kind} (hk : k ∈ kinds o)
    {d : Char} (hd : d ∈ s.head?) (start : k.Starts d) : k.Derives o s := by
  obtain ⟨k', hk', derives, d', hd', start'⟩ := h.exists_kind
  cases Option.mem_unique hd hd'
  cases start.unique hk hk' start'
  exact derives

/-- The values that start with one of some characters, where no literals are in force. -/
structure IsToken (o : Options) (language : List Char → Prop) (starts : Char → Prop) : Prop where
  unnamed : o.literals = false
  inhabited : ∃ s, language s
  begins : ∀ d, starts d → ∃ s, language (d :: s)
  head : ∀ s, language s → ∃ d ∈ s.head?, starts d
  isValue : ∀ s, language s → Generates o .value s
  ofValue : ∀ s d, Generates o .value s → d ∈ s.head? → starts d → language s

/-- What becomes of a text: a token is taken that the rest does not go on with, or there is none and
the text is refused where it stops to be the start of a token. -/
def TokenResult (language : List Char → Prop) (t : List Char) : Verdict → Prop
  | .taken c r => t = c ++ r ∧ language c ∧ (IsNumber c → NumberEnds c r)
  | .refused e => (∃ pre, IsLongestViable language t pre ∧ e.offset = byteLength pre) ∧
    ∀ c r, t = c ++ r → language c → ¬ (IsNumber c → NumberEnds c r)

namespace IsToken

variable (token : IsToken o language starts)

include token

/-- Tokens are values, where a number among them has ended. -/
lemma accepts (hc : language c) (ends : IsNumber c → NumberEnds c r) :
    Start.value.Accepts o c r :=
  ⟨token.isValue c hc, ends⟩

/-- Where there is a token, reading the text stops at the end of a value. -/
lemma ends_of_halts {as bs : List Char} {q : Position}
    (halts : (Position.value false []).Halts o false as bs q) (split : as ++ bs = c ++ r)
    (hc : language c) (ends : IsNumber c → NumberEnds c r) : q.Ends [] := by
  obtain ⟨_, _, ends'⟩ := (token.accepts hc ends).of_halts halts split
  exact ends'

/-- Where reading a value stops that starts like a token, the longest start of a token ends. -/
lemma isLongestViable {d : Char} {ds bs : List Char} {q : Position} (start : starts d)
    (h : (Position.value false []).Halts o false (d :: ds) bs q) :
    IsLongestViable language (d :: ds ++ bs) (d :: ds) := by
  have longest : IsLongestViable (Start.value.Sentence o) (d :: ds ++ bs) (d :: ds) :=
    isLongestViable_of_halts h
  refine ⟨longest.isPrefix, ?_, fun pre hp viable => longest.longest pre hp ?_⟩
  · obtain ⟨rest, generated⟩ := longest.viable
    exact ⟨rest, token.ofValue _ d generated rfl start⟩
  · obtain ⟨rest, h⟩ := viable
    exact ⟨rest, token.isValue _ h⟩

/-- The first character of a token is read at least. -/
lemma not_halts_nil {d : Char} (hd : d ∈ t.head?) (start : starts d) {q : Position} :
    ¬ (Position.value false []).Halts o false [] t q := by
  intro h
  obtain ⟨s, hs⟩ := token.begins d start
  obtain ⟨ds, rfl⟩ := List.head?_eq_some_iff.1 hd
  have longest : IsLongestViable (Start.value.Sentence o) (d :: ds) [] :=
    isLongestViable_of_halts (s := .value) h
  have le := longest.longest [d] ⟨ds, rfl⟩ ⟨s, token.isValue _ hs⟩
  have pos := d.utf8Size_pos
  rw [byteLength_cons, byteLength_nil] at le
  omega

/-- Without literals in force, no part of a literal is ever read. -/
lemma backlog_eq_nil {s : List Char} {q : Position}
    (h : read o false (.value false []) s = some q) : q.backlog = [] := by
  have before (seen : List Char) (next : Char) (rest : List Char) (σ : List Bracket) :
      Position.value false [] ≠ .literal seen next rest σ := fun h => by cases h
  apply Position.backlog_eq_nil
  rintro seen next rest σ rfl
  obtain ⟨_, _, _, _, enabled, _⟩ := exists_start_of_literal before h
  cases enabled.symm.trans token.unnamed

/-- What follows the positions of values behind the start of a token comes to the result. -/
lemma result_of_tracks {d : Char} (hd : d ∈ t.head?) (start : starts d)
    (tracks : Tracks o false (.value false []) (valueAim o []) t v) : TokenResult language t v := by
  cases tracks with
  | @taken c r q hr h =>
    obtain ⟨generated, settled⟩ := h
    have halts : (Position.value false []).Halts o false c r q := by
      refine ⟨hr, fun c' hc => ?_⟩
      exact (settled.step hc).trans (stepBehind_nil fun _ => rfl)
    cases c with
    | nil => exact (token.not_halts_nil hd start halts).elim
    | cons d' c =>
      cases hd
      have hc : language (d :: c) := token.ofValue _ d generated rfl start
      exact ⟨rfl, hc, fun number => (numberEnds_iff number hr).2 halts.stuck⟩
  | @refused _ e q stops ends =>
    obtain ⟨as, bs, rfl, halts, offset⟩ := stops
    rw [token.backlog_eq_nil halts.read, byteLength_nil, Nat.add_zero] at offset
    refine ⟨⟨as, ?_, offset.symm⟩, fun c r split hc numberEnds => ?_⟩
    · cases as with
      | nil => exact (token.not_halts_nil hd start halts).elim
      | cons d' as =>
        cases hd
        exact token.isLongestViable start halts
    · exact ends (token.ends_of_halts halts split hc numberEnds)

/-- A text that does not start like a token is not the start of one. -/
lemma result_of_not_starts (other : ∀ d ∈ t.head?, ¬ starts d) {e : Rejection}
    (offset : e.offset = 0) : TokenResult language t (.refused e) := by
  refine ⟨⟨[], ⟨List.nil_prefix, token.inhabited, ?_⟩, offset⟩, ?_⟩
  · rintro pre ⟨bs, rfl⟩ ⟨rest, h⟩
    obtain ⟨d, hd, start⟩ := token.head _ h
    cases pre with
    | nil => exact Nat.le_refl 0
    | cons d' pre =>
      cases hd
      exact absurd start (other d rfl)
  · rintro c r rfl hc -
    obtain ⟨d, hd, start⟩ := token.head c hc
    cases c with
    | nil => cases hd
    | cons d' c =>
      cases hd
      exact other d rfl start

/-- A pattern answers every text by its result if it follows the start of a token and declines
everything else. -/
lemma exists_result {p : Pattern Link} {definitions : Link → Resolution Link}
    (follows : ∀ d ds, t = d :: ds → starts d →
      Follows o false (.value false []) (p.Answers definitions t) t (valueAim o []))
    (declines : (∀ d ∈ t.head?, ¬ starts d) → p.Declines definitions t) :
    ∃ v, p.Answers definitions t v ∧ TokenResult language t v := by
  rcases head_cases starts t with ⟨d, ds, split, start⟩ | other
  · obtain ⟨v, ha, tracks⟩ := follows d ds split start
    have hd : d ∈ t.head? := split ▸ rfl
    exact ⟨v, ha, token.result_of_tracks hd start tracks⟩
  · obtain ⟨e, offset, ha⟩ := declines other
    exact ⟨_, ha, token.result_of_not_starts other offset⟩

/-- A text has one result. -/
lemma eq_taken (h : TokenResult language (c ++ r) v) (hc : language c)
    (ends : IsNumber c → NumberEnds c r) : v = .taken c r := by
  cases v with
  | refused e => exact absurd ends (h.2 c r rfl hc)
  | taken c' r' =>
    obtain ⟨split, hc', ends'⟩ := h
    obtain ⟨rfl, rfl⟩ := (token.accepts hc ends).unique (token.accepts hc' ends') split
    rfl

/-- The result says of every part of a text if it is taken. -/
lemma eq_taken_iff (result : TokenResult language t v) :
    v = .taken c r ↔ t = c ++ r ∧ language c ∧ (IsNumber c → NumberEnds c r) := by
  constructor
  · rintro rfl
    exact result
  · rintro ⟨rfl, hc, ends⟩
    exact token.eq_taken result hc ends

end IsToken

end Recognizer.Json
