import Recognizer.Proofs.Json.Recognition

/-!
# Where texts are refused

A text is viable if some rest makes it a sentence. A text that is refused is refused at the end of
its longest viable part, or where a literal starts that this part breaks off (`refused_offset`).
-/

namespace Recognizer.Json

open Text Position

variable {o : Options} {s : Start} {padded : Bool} {as bs cs pre t : List Char}
  {q q' : Position} {σ : List Bracket} {c : Char}

/-- Some rest makes a sentence of the text. -/
def Viable (language : List Char → Prop) (pre : List Char) : Prop :=
  ∃ rest, language (pre ++ rest)

/-- The longest leading part of `t` that is viable. -/
structure IsLongestViable (language : List Char → Prop) (t pre : List Char) : Prop where
  isPrefix : pre <+: t
  viable : Viable language pre
  longest : ∀ pre', pre' <+: t → Viable language pre' → byteLength pre' ≤ byteLength pre

/-- Any value may come next. -/
def AtValue (o : Options) (language : List Char → Prop) (pre : List Char) : Prop :=
  ∀ v, Generates o .value v → Viable language (pre ++ v)

/-- Behind `before`, where a value may come, the text breaks off a literal. -/
def BreaksLiteral (o : Options) (language : List Char → Prop) (pre before : List Char) : Prop :=
  o.literals = true ∧ AtValue o language before ∧ ∃ seen rest, pre = before ++ seen ∧ seen ≠ [] ∧
    rest ≠ [] ∧ seen ++ rest ∈ literalWords

/-- A whole text of a rule is accepted. -/
lemma Start.Sentence.accepts (h : s.Sentence o t) : s.Accepts o t [] := by
  cases s with
  | value => exact ⟨h, fun _ => ⟨nofun, nofun, fun h => by rcases h with h | h <;> cases h⟩⟩
  | compound b => exact h
  | document => exact ⟨h, rfl⟩

/-- A text that is read to the end of a value is a sentence. -/
lemma Start.sentence_of_read (hr : s.position.read o (s.padded o) t = some q)
    (ends : q.Ends []) : s.Sentence o t := by
  obtain ⟨v, _, result⟩ := s.exists_result o t
  cases v with
  | taken as bs =>
    obtain ⟨rfl, sentence, _, q', halts, _⟩ := result
    rwa [halts.rest_eq_nil hr, List.append_nil]
  | refused e =>
    obtain ⟨_, _, _, unread⟩ := result
    exact absurd ends (unread q hr)

/-- A text is viable if it can be read. -/
lemma viable_iff : Viable (s.Sentence o) pre ↔
    ∃ q, s.position.read o (s.padded o) pre = some q := by
  constructor
  · rintro ⟨rest, sentence⟩
    obtain ⟨q, halts, _⟩ := sentence.accepts.halts
    obtain ⟨q', hr, _⟩ := exists_read_of_append halts.read
    exact ⟨q', hr⟩
  · rintro ⟨q, hr⟩
    obtain ⟨rest, q', hr', ends⟩ := q.completes o (s.padded o)
    exact ⟨rest, Start.sentence_of_read ((read_append_of_read hr rest).trans hr') ends⟩

/-- Where reading stops, the longest viable part ends. -/
lemma isLongestViable_of_halts (h : s.position.Halts o (s.padded o) as bs q) :
    IsLongestViable (s.Sentence o) (as ++ bs) as := by
  refine ⟨⟨bs, rfl⟩, viable_iff.2 ⟨q, h.read⟩, ?_⟩
  rintro pre ⟨rest, split⟩ viable
  obtain ⟨q', hr⟩ := viable_iff.1 viable
  -- A viable text can be read, so it does not go beyond the place where reading is stuck.
  rcases List.append_eq_append_iff.1 split with ⟨mid, rfl, rfl⟩ | ⟨mid, rfl, rfl⟩
  · rw [byteLength_append]
    exact Nat.le_add_right _ _
  · have same : as ++ mid = as := by rw [h.eq_nil hr, List.append_nil]
    exact Nat.le_of_eq (congrArg byteLength same)

/-- Behind a value nothing but delimiters is read. -/
lemma stepBehind_of_not_delimits (h : ¬ Delimits c) : stepBehind padded σ c = none := by
  obtain ⟨blank, other⟩ := not_or.1 h
  cases σ with
  | nil => exact stepBehind_nil fun hc => absurd hc blank
  | cons b σ =>
    refine stepBehind_eq_none (Bool.eq_false_iff.2 blank) ?_ ?_
    · rintro rfl
      exact other (by decide)
    · rintro rfl
      cases b with
      | square => exact other (by decide)
      | curly => exact other (by decide)

/-- What starts with an unreadable character cannot be read. -/
lemma read_cons_eq_none (h : step o padded q c = none) : read o padded q (c :: cs) = none := by
  show (step o padded q c).bind _ = none
  rw [h, Option.bind_none]

/-- A zero and an empty string can both be read before values only. -/
lemma exists_value_of_read (zero : ∃ q', read o padded q ['0'] = some q')
    (string : ∃ q', read o padded q ['"', '"'] = some q') : ∃ fresh σ, q = .value fresh σ := by
  have noZero (h : step o padded q '0' = none) : False := by
    obtain ⟨q', hr⟩ := zero
    cases hr.symm.trans (read_cons_eq_none h)
  have noString (h : step o padded q '"' = none) : False := by
    obtain ⟨q', hr⟩ := string
    cases hr.symm.trans (read_cons_eq_none h)
  have quote : ¬ Delimits '"' := by
    rintro (h | h) <;> revert h <;> decide
  have delimits : ¬ Delimits '0' := by
    rintro (h | h) <;> revert h <;> decide
  -- In all other places at most one of the two can be read.
  cases q with
  | value fresh σ => exact ⟨fresh, σ, rfl⟩
  | opening b => cases b <;> cases noZero rfl
  | key fresh σ => cases fresh <;> cases noZero rfl
  | colon σ => cases noZero rfl
  | after σ => cases noZero (stepBehind_of_not_delimits delimits)
  | string place isKey σ =>
    cases place with
    | body =>
      obtain ⟨q', hr⟩ := string
      have last : step o padded (behindString isKey σ) '"' = none := by
        cases isKey with
        | false => exact stepBehind_of_not_delimits quote
        | true => rfl
      have first : read o padded (.string .body isKey σ) ['"', '"'] =
        read o padded (behindString isKey σ) ['"'] := rfl
      cases hr.symm.trans (first.trans (read_cons_eq_none last))
    | escaped => cases noZero rfl
    | hex more => cases noString (step_hex_eq_none rfl)
  | number place σ =>
    have next : place.next '"' = none := by cases place <;> rfl
    refine (noString ?_).elim
    rw [step, next]
    show (if place.isFinal then stepBehind padded σ '"' else none) = none
    rw [stepBehind_of_not_delimits quote, ite_self]
  | literal seen next rest σ =>
    by_cases h : '0' = next
    · subst h
      cases noString rfl
    · cases noZero (if_neg h)

/-- The places where any value may come are those before values. -/
lemma atValue_iff : AtValue o (s.Sentence o) pre ↔
    ∃ fresh σ, s.position.read o (s.padded o) pre = some (.value fresh σ) := by
  constructor
  · intro h
    have readable {v : List Char} (hv : Generates o .value v) : ∃ q,
        s.position.read o (s.padded o) (pre ++ v) = some q := viable_iff.1 (h v hv)
    have isZero : Generates o .value ['0'] := .number (.intro .absent .zero .absent .absent)
    have isString : Generates o .value ['"', '"'] := .string (.intro .nil)
    obtain ⟨q₁, hz⟩ := readable isZero
    obtain ⟨q₂, hs⟩ := readable isString
    obtain ⟨q, hr, hz⟩ := exists_read_of_append hz
    rw [read_append_of_read hr] at hs
    obtain ⟨fresh, σ, rfl⟩ := exists_value_of_read ⟨q₁, hz⟩ ⟨q₂, hs⟩
    exact ⟨fresh, σ, hr⟩
  · rintro ⟨fresh, σ, hr⟩ v hv
    obtain ⟨q, hr', _⟩ := hv.reads (s.padded o) fresh σ
    exact viable_iff.2 ⟨q, (read_append_of_read hr v).trans hr'⟩

/-- A leading part of what is left of a literal leads into it. -/
lemma read_literal_part (seen : List Char) {next : Char} {rest : List Char} (ne : bs ≠ [])
    (h : next :: rest = as ++ bs) :
    ∃ next' rest', read o padded (.literal seen next rest σ) as =
      some (.literal (seen ++ as) next' rest' σ) := by
  induction as generalizing seen next rest with
  | nil => exact ⟨next, rest, by rw [List.append_nil]; rfl⟩
  | cons c as ih =>
    obtain ⟨rfl, tail⟩ := List.cons.inj h
    cases rest with
    | nil => exact absurd (List.append_eq_nil_iff.1 tail.symm).2 ne
    | cons next' rest =>
      obtain ⟨next'', rest', hr⟩ := ih (seen ++ [next]) tail
      have step : step o padded (.literal seen next (next' :: rest) σ) next =
        some (.literal (seen ++ [next]) next' rest σ) := if_pos rfl
      refine ⟨next'', rest', ?_⟩
      rw [read_cons step, hr, List.append_assoc, List.singleton_append]

/-- A leading part of a literal word leads into its literal. -/
lemma read_word_part (padded fresh : Bool) (σ : List Bracket) {seen rest : List Char}
    (enabled : o.literals = true) (hs : seen ≠ []) (hr : rest ≠ [])
    (word : seen ++ rest ∈ literalWords) :
    ∃ next rest', read o padded (.value fresh σ) seen = some (.literal seen next rest' σ) := by
  cases seen with
  | nil => exact absurd rfl hs
  | cons c seen =>
    obtain ⟨next, rest', split⟩ : ∃ next rest', seen ++ rest = next :: rest' :=
      List.exists_cons_of_ne_nil fun e => hr (List.append_eq_nil_iff.1 e).2
    rw [List.cons_append, split] at word
    obtain ⟨start, blank, ne⟩ := startValue_word (σ := σ) enabled word
    have step : step o padded (.value fresh σ) c = some (.literal [c] next rest' σ) := by
      refine (step_value (fun hw => ?_) fun _ => ne).trans start
      cases hw.symm.trans blank
    obtain ⟨next', rest'', hr⟩ := read_literal_part [c] hr split.symm
    exact ⟨next', rest'', (read_cons step seen).trans hr⟩

/-- Where a literal is being read, it breaks off. -/
lemma breaksLiteral_of_read {seen rest : List Char} {next : Char}
    (h : s.position.read o (s.padded o) pre = some (.literal seen next rest σ)) :
    ∃ before, BreaksLiteral o (s.Sentence o) pre before := by
  have start (seen : List Char) (next : Char) (rest : List Char) (σ : List Bracket) :
      s.position ≠ .literal seen next rest σ := by
    cases s <;> exact fun h => by cases h
  obtain ⟨before, fresh, rfl, hr, enabled, ne, word⟩ := exists_start_of_literal start h
  exact ⟨before, enabled, atValue_iff.2 ⟨fresh, σ, hr⟩, seen, next :: rest, rfl, ne,
    List.cons_ne_nil _ _, word⟩

/-- A literal that breaks off is the backlog of the place where it does. -/
lemma BreaksLiteral.backlog {before : List Char}
    (h : BreaksLiteral o (s.Sentence o) pre before)
    (hr : s.position.read o (s.padded o) pre = some q) : pre = before ++ q.backlog := by
  obtain ⟨enabled, value, seen, rest, rfl, hs, hrest, word⟩ := h
  obtain ⟨fresh, σ, hv⟩ := atValue_iff.1 value
  obtain ⟨next, rest', hl⟩ := read_word_part (s.padded o) fresh σ enabled hs hrest word
  rw [read_append_of_read hv, hl] at hr
  cases hr
  rfl

/-- A text is refused at the end of its longest viable part, or, if this part breaks off a literal,
where the literal starts. So a text that only lacks its end is refused at its end, unless a literal
lacks its end. -/
theorem refused_offset (o : Options) (s : Start) (t : List Char) (e : Rejection)
    (refused : parse o s t = .ok (.refused e)) :
    (∃ pre, IsLongestViable (s.Sentence o) t pre ∧
      (∀ before, BreaksLiteral o (s.Sentence o) pre before → e.offset = byteLength before) ∧
      ((∀ before, ¬ BreaksLiteral o (s.Sentence o) pre before) → e.offset = byteLength pre)) ∧
    (Viable (s.Sentence o) t → (∀ before, ¬ BreaksLiteral o (s.Sentence o) t before) →
      e.offset = byteLength t) := by
  obtain ⟨v, hv, result⟩ := s.exists_result o t
  cases hv.symm.trans refused
  obtain ⟨q, ⟨as, bs, rfl, halts, offset⟩, _⟩ := result
  -- The place of the rejection does not count what has been read of a literal.
  have broken (before : List Char) (h : BreaksLiteral o (s.Sentence o) as before) :
      e.offset = byteLength before := by
    have split := congrArg byteLength (h.backlog halts.read)
    rw [byteLength_append, offset] at split
    exact Nat.add_right_cancel split
  have whole (h : ∀ before, ¬ BreaksLiteral o (s.Sentence o) as before) :
      e.offset = byteLength as := by
    have backlog : q.backlog = [] := by
      refine backlog_eq_nil fun seen next rest σ hq => ?_
      subst hq
      obtain ⟨before, broken⟩ := breaksLiteral_of_read halts.read
      exact h before broken
    rw [offset, backlog, byteLength_nil, Nat.add_zero]
  refine ⟨⟨as, isLongestViable_of_halts halts, broken, whole⟩, fun viable unbroken => ?_⟩
  obtain ⟨q', hr⟩ := viable_iff.1 viable
  obtain rfl := halts.rest_eq_nil hr
  rw [List.append_nil] at unbroken ⊢
  exact whole unbroken

/-- An array that is cut off behind its opening bracket is refused there. -/
theorem refused_offset_opening :
    ∃ e, parse {} (.compound .square) ['['] = .ok (.refused e) ∧ e.offset = 1 := by
  have halts : (Start.compound .square).position.Halts {} ((Start.compound .square).padded {}) ['[']
    [] (.value true [.square]) := ⟨rfl, nofun⟩
  have viable : Viable ((Start.compound .square).Sentence {}) ['['] :=
    ⟨[']'], .empty .square isBlank_nil⟩
  obtain ⟨e, refused⟩ := refused_of_halts halts waits_value.not_ends
  refine ⟨e, refused, ?_⟩
  apply (refused_offset {} (.compound .square) ['['] e refused).2 viable
  rintro before ⟨enabled, _⟩
  cases enabled

end Recognizer.Json
