import Mathlib.Tactic.SplitIfs
import Recognizer.Proofs.Json.Position

/-!
# Reading JSON texts

Derived texts can be read to their ends (`Generates.reads`), and from every position some rest leads
to the end of a value (`Position.completes`).
-/

namespace Recognizer.Json

namespace NumberPlace

variable {c : Char} {as bs ds t : List Char} {place place' : NumberPlace}

/-- The place behind a text that goes on with the number. -/
def reach (place : NumberPlace) (cs : List Char) : Option NumberPlace :=
  cs.foldlM next place

/-- The place behind two parts is the one behind the second. -/
lemma reach_append (h : place.reach as = some place') (bs : List Char) :
    place.reach (as ++ bs) = place'.reach bs := by
  rw [reach, List.foldlM_append, ← reach, h]
  rfl

/-- The first character leads to the next place. -/
lemma reach_cons (h : place.next c = some place') (cs : List Char) :
    place.reach (c :: cs) = place'.reach cs :=
  have one : place.reach [c] = some place' := by
    rw [reach, List.foldlM_cons, h]
    rfl
  reach_append one cs

/-- Digits that change nothing change nothing together. -/
lemma reach_of_forall (hd : ∀ c, CharClass.digit.accepts c = true → place.next c = some place)
    (h : ∀ c ∈ ds, CharClass.digit.accepts c = true) : place.reach ds = some place := by
  induction ds with
  | nil => rfl
  | cons d ds ih =>
    rw [List.forall_mem_cons] at h
    rw [reach_cons (hd d h.1), ih h.2]

/-- An integer goes on with digits. -/
lemma next_integer (h : CharClass.digit.accepts c = true) : integer.next c = some integer := by
  rw [next, if_pos h]

/-- So does a fraction. -/
lemma next_fraction (h : CharClass.digit.accepts c = true) : fraction.next c = some fraction := by
  rw [next, if_pos h]

/-- And an exponent. -/
lemma next_exponent (h : CharClass.digit.accepts c = true) : exponent.next c = some exponent := by
  rw [next, if_pos h]

/-- A point needs a digit. -/
lemma next_point (h : CharClass.digit.accepts c = true) : point.next c = some fraction := by
  rw [next, if_pos h]

/-- So does the sign of an exponent. -/
lemma next_sign (h : CharClass.digit.accepts c = true) : sign.next c = some exponent := by
  rw [next, if_pos h]

/-- An exponent mark may have a digit behind it at once. -/
lemma next_mark (h : CharClass.digit.accepts c = true) : mark.next c = some exponent := by
  have plus : c ≠ '+' := CharClass.ne_of_accepts h rfl
  have minus : c ≠ '-' := CharClass.ne_of_accepts h rfl
  rw [next, if_neg (by simp [plus, minus]), if_pos h]

/-- A fraction may come next. -/
def BeforePoint (place : NumberPlace) : Prop :=
  place = zero ∨ place = integer

/-- An exponent may come next. -/
def BeforeMark (place : NumberPlace) : Prop :=
  place.BeforePoint ∨ place = fraction

/-- A fraction starts with its point. -/
lemma BeforePoint.next (h : place.BeforePoint) : place.next '.' = some point := by
  rcases h with rfl | rfl <;> rfl

/-- An exponent starts with its mark. -/
lemma BeforeMark.next (h : place.BeforeMark) (hc : c = 'e' ∨ c = 'E') :
    place.next c = some mark := by
  rcases h with (rfl | rfl) | rfl <;> rcases hc with rfl | rfl <;> rfl

/-- An integer leads to a place before the point, and to `zero` only if it is zero. -/
lemma first_of_isInteger (h : IsInteger t) : ∃ c cs place place', t = c :: cs ∧
    first c = some place ∧ place.reach cs = some place' ∧ place'.BeforePoint ∧
    (place' = zero ↔ t = ['0']) := by
  cases h with
  | zero => exact ⟨_, _, zero, zero, rfl, rfl, rfl, .inl rfl, by simp⟩
  | @digits d ds hd hds =>
    have ne : d ≠ '0' := CharClass.ne_of_accepts hd rfl
    refine ⟨d, ds, integer, integer, rfl, ?_, reach_of_forall (fun _ => next_integer) hds,
      .inr rfl, by simp [ne]⟩
    rw [first, if_neg ne, if_pos hd]

/-- Digits lead to a place that they do not change. -/
lemma reach_of_isDigits (hd : ∀ c, CharClass.digit.accepts c = true → place.next c = some place')
    (hd' : ∀ c, CharClass.digit.accepts c = true → place'.next c = some place')
    (h : IsDigits ds) : place.reach ds = some place' := by
  obtain ⟨hc, hcs⟩ := h
  rw [reach_cons (hd _ hc), reach_of_forall hd' hcs]

/-- What does not go on with a number that could end depends on what the number has. -/
lemma next_eq_none_iff (final : place.isFinal = true) : place.next c = none ↔
    (CharClass.digit.accepts c = true → place = zero) ∧
    (c = '.' → place = fraction ∨ place = exponent) ∧ (c = 'e' ∨ c = 'E' → place = exponent) := by
  cases place with
  | zero | integer | fraction | exponent =>
    rw [next]
    split_ifs <;> simp_all
  | minus | point | mark | sign => cases final

/-- What the place behind a number says about the number. -/
structure Describes (place : NumberPlace) (t : List Char) : Prop where
  zero : place = zero ↔ t = ['0'] ∨ t = ['-', '0']
  point : place = fraction ∨ place = exponent ↔ '.' ∈ t ∨ 'e' ∈ t ∨ 'E' ∈ t
  mark : place = exponent ↔ 'e' ∈ t ∨ 'E' ∈ t

/-- The place behind a number knows what can extend it. -/
lemma Describes.numberEnds_iff (h : place.Describes t) (final : place.isFinal = true)
    (rest : List Char) : NumberEnds t rest ↔ ∀ c ∈ rest.head?, place.next c = none := by
  have ends : NumberEnds t rest ↔ ∀ c ∈ rest.head?,
      (CharClass.digit.accepts c = true → place = .zero) ∧
      (c = '.' → place = fraction ∨ place = exponent) ∧
      (c = 'e' ∨ c = 'E' → place = exponent) := by
    rw [h.zero, h.point, h.mark]
    constructor
    · intro ends c hc
      refine ⟨ends.digit c hc, ?_, ?_⟩
      · rintro rfl
        exact ends.point hc
      · rintro (rfl | rfl)
        · exact ends.mark (.inl hc)
        · exact ends.mark (.inr hc)
    · intro ends
      refine ⟨fun c hc => (ends c hc).1, fun hc => (ends _ hc).2.1 rfl, ?_⟩
      rintro (hc | hc)
      · exact (ends _ hc).2.2 (.inl rfl)
      · exact (ends _ hc).2.2 (.inr rfl)
  -- What the number says about itself is now said of the place, character by character.
  rw [ends]
  exact forall₂_congr fun c _ => (next_eq_none_iff final).symm

/-- Nothing but digits is among digits. -/
lemma not_mem_of_digits {d : Char} (h : ∀ c ∈ ds, CharClass.digit.accepts c = true)
    (hd : CharClass.digit.accepts d = false) : d ∉ ds := by
  intro hm
  cases (h d hm).symm.trans hd

/-- Digits are digits, the first one too. -/
lemma digits_of_isDigits (h : IsDigits ds) : ∀ c ∈ ds, CharClass.digit.accepts c = true := by
  obtain ⟨hc, hcs⟩ := h
  exact List.forall_mem_cons.2 ⟨hc, hcs⟩

/-- An integer has digits only. -/
lemma digits_of_isInteger (h : IsInteger t) : ∀ c ∈ t, CharClass.digit.accepts c = true := by
  cases h with
  | zero =>
    intro c hc
    cases List.mem_singleton.1 hc
    rfl
  | digits hd hds => exact List.forall_mem_cons.2 ⟨CharClass.digit_of_nonzeroDigit hd, hds⟩

/-- A point and digits lead to the place of fractions. -/
lemma reach_point (hds : IsDigits ds) (hp : place.BeforePoint) :
    place.reach ('.' :: ds) = some fraction := by
  rw [reach_cons hp.next]
  exact reach_of_isDigits (fun _ => next_point) (fun _ => next_fraction) hds

/-- A mark, a sign and digits lead to the place of exponents. -/
lemma reach_mark {mark : Char} {sign : List Char} (hm : mark = 'e' ∨ mark = 'E')
    (hs : IsSign sign) (hds : IsDigits ds) (hp : place.BeforeMark) :
    place.reach (mark :: (sign ++ ds)) = some exponent := by
  rw [reach_cons (hp.next hm)]
  have signed (c : Char) (hc : NumberPlace.mark.next c = some .sign) :
      NumberPlace.mark.reach (c :: ds) = some exponent := by
    rw [reach_cons hc]
    exact reach_of_isDigits (fun _ => next_sign) (fun _ => next_exponent) hds
  cases hs with
  | absent => exact reach_of_isDigits (fun _ => next_mark) (fun _ => next_exponent) hds
  | plus => exact signed '+' rfl
  | minus => exact signed '-' rfl

/-- A number with a fraction or an exponent is not zero. -/
lemma ne_zero_of_mem {d : Char} (hd : d = '.' ∨ d = 'e' ∨ d = 'E') (h : d ∈ t) :
    ¬ (t = ['0'] ∨ t = ['-', '0']) := by
  rintro (rfl | rfl) <;> rcases hd with rfl | rfl | rfl <;> revert h <;> decide

/-- A number without these is zero if its integer is. -/
lemma eq_zero_iff {minus integer : List Char} (hm : IsMinus minus) (hi : IsInteger integer) :
    minus ++ integer = ['0'] ∨ minus ++ integer = ['-', '0'] ↔ integer = ['0'] := by
  have signless : integer ≠ ['-', '0'] := by
    rintro rfl
    exact not_mem_of_digits (digits_of_isInteger hi) rfl List.mem_cons_self
  cases hm with
  | absent => simp [signless]
  | present => simp

/-- An integer has no other characters but its sign. -/
lemma not_mem_of_isInteger {minus integer : List Char} (hm : IsMinus minus) (hi : IsInteger integer)
    {d : Char} (hd : CharClass.digit.accepts d = false) (hd' : d ≠ '-') : d ∉ minus ++ integer := by
  rw [List.mem_append]
  rintro (h | h)
  · cases hm with
    | absent => cases h
    | present => exact hd' (List.mem_singleton.1 h)
  · exact not_mem_of_digits (digits_of_isInteger hi) hd h

/-- The place behind an integer describes it. -/
lemma describes_integer {minus integer : List Char} (hm : IsMinus minus) (hi : IsInteger integer)
    (hp : place.BeforePoint) (hz : place = .zero ↔ integer = ['0']) :
    place.Describes (minus ++ integer) := by
  have none {d : Char} (hd : CharClass.digit.accepts d = false) (hd' : d ≠ '-') :
      d ∉ minus ++ integer := not_mem_of_isInteger hm hi hd hd'
  have noPoint : '.' ∉ minus ++ integer := none rfl (by decide)
  have noMark : ¬ ('e' ∈ minus ++ integer ∨ 'E' ∈ minus ++ integer) :=
    not_or.2 ⟨none rfl (by decide), none rfl (by decide)⟩
  refine ⟨?_, ?_, ?_⟩
  · rw [hz, eq_zero_iff hm hi]
  · rcases hp with rfl | rfl <;> simp only [noPoint, noMark, reduceCtorEq, or_self]
  · rcases hp with rfl | rfl <;> simp only [noMark, reduceCtorEq]

/-- The place behind a fraction describes the number. -/
lemma describes_fraction {minus integer : List Char} (hm : IsMinus minus) (hi : IsInteger integer)
    (hds : IsDigits ds) : fraction.Describes (minus ++ integer ++ '.' :: ds) := by
  have point : '.' ∈ minus ++ integer ++ '.' :: ds := by simp
  have none {d : Char} (hd : CharClass.digit.accepts d = false) (hd' : d ≠ '-') (ne : d ≠ '.') :
      d ∉ minus ++ integer ++ '.' :: ds := by
    rw [List.mem_append, List.mem_cons]
    rintro (h | h | h)
    · exact not_mem_of_isInteger hm hi hd hd' h
    · exact ne h
    · exact not_mem_of_digits (digits_of_isDigits hds) hd h
  refine ⟨?_, ?_, ?_⟩
  · exact iff_of_false nofun (ne_zero_of_mem (.inl rfl) point)
  · exact iff_of_true (.inl rfl) (.inl point)
  · exact iff_of_false nofun (not_or.2
      ⟨none rfl (by decide) (by decide), none rfl (by decide) (by decide)⟩)

/-- And so does the place behind an exponent. -/
lemma describes_exponent {mark : Char} (hmark : mark = 'e' ∨ mark = 'E') (h : mark ∈ t) :
    exponent.Describes t := by
  have marked : 'e' ∈ t ∨ 'E' ∈ t := by
    rcases hmark with rfl | rfl
    · exact .inl h
    · exact .inr h
  refine ⟨?_, ?_, ?_⟩
  · exact iff_of_false nofun (ne_zero_of_mem (.inr hmark) h)
  · exact iff_of_true (.inr rfl) (.inr marked)
  · exact iff_of_true rfl marked

/-- Behind an integer, the place that a fraction and an exponent lead to describes the number. -/
lemma describes_of_parts {minus integer fraction exponent : List Char} (hm : IsMinus minus)
    (hi : IsInteger integer) (hf : IsFraction fraction) (hx : IsExponent exponent)
    (hp : place.BeforePoint) (hz : place = .zero ↔ integer = ['0']) :
    ∃ place' : NumberPlace, place.reach (fraction ++ exponent) = some place' ∧
      place'.isFinal = true ∧ place'.Describes (minus ++ integer ++ (fraction ++ exponent)) := by
  cases hx with
  | absent =>
    rw [List.append_nil]
    cases hf with
    | absent =>
      have final : place.isFinal = true := by rcases hp with rfl | rfl <;> rfl
      rw [List.append_nil]
      exact ⟨place, rfl, final, describes_integer hm hi hp hz⟩
    | present hds => exact ⟨_, reach_point hds hp, rfl, describes_fraction hm hi hds⟩
  | present hmark hs hds =>
    refine ⟨.exponent, ?_, rfl, describes_exponent hmark (by simp)⟩
    cases hf with
    | absent => exact reach_mark hmark hs hds (.inl hp)
    | present hds' =>
      rw [reach_append (reach_point hds' hp)]
      exact reach_mark hmark hs hds (.inr rfl)

/-- A number leads to a final place that describes it. -/
lemma exists_describes (h : IsNumber t) : ∃ place : NumberPlace, place.isFinal = true ∧
    place.Describes t ∧ ((∃ c cs start, t = c :: cs ∧ first c = some start ∧
      start.reach cs = some place) ∨ ∃ cs, t = '-' :: cs ∧ minus.reach cs = some place) := by
  obtain ⟨hm, hi, hf, hx⟩ := h
  obtain ⟨c, cs, start, behind, rfl, hc, reach, hp, hz⟩ := first_of_isInteger hi
  obtain ⟨place, reach', final, describes⟩ := describes_of_parts hm hi hf hx hp hz
  refine ⟨place, final, by rwa [List.append_assoc] at describes, ?_⟩
  have whole : start.reach (cs ++ (_ ++ _)) = some place := (reach_append reach _).trans reach'
  cases hm with
  | absent => exact .inl ⟨c, _, start, rfl, hc, whole⟩
  | present =>
    have signed : minus.next c = some start := hc
    exact .inr ⟨_, rfl, (reach_cons signed _).trans whole⟩

end NumberPlace

namespace Position

variable {o : Options} {padded fresh : Bool} {σ : List Bracket} {q q' : Position} {c : Char}
  {as bs cs t : List Char}

/-- A character that goes on with a number is read. -/
lemma step_number {place place' : NumberPlace} (h : place.next c = some place') :
    step o padded (.number place σ) c = some (.number place' σ) := by
  rw [step, h]

/-- So is a text that does. -/
lemma read_number {place place' : NumberPlace} (h : place.reach cs = some place') :
    read o padded (.number place σ) cs = some (.number place' σ) := by
  induction cs generalizing place with
  | nil =>
    cases h
    rfl
  | cons c cs ih =>
    obtain ⟨place₁, hn, hr⟩ := Option.bind_eq_some_iff.1 (List.foldlM_cons.symm.trans h)
    rw [read_cons (step_number hn), ih hr]

/-- A number is read from where a value is expected. -/
lemma read_value_number (o : Options) (padded fresh : Bool) (σ : List Bracket) (h : IsNumber t) :
    ∃ place : NumberPlace, place.isFinal = true ∧ place.Describes t ∧
      read o padded (.value fresh σ) t = some (.number place σ) := by
  obtain ⟨place, final, describes, ⟨c, cs, start, rfl, hc, reach⟩ | ⟨cs, rfl, reach⟩⟩ :=
    NumberPlace.exists_describes h
  · have digit := NumberPlace.digit_of_first hc
    refine ⟨place, final, describes, ?_⟩
    have blank : CharClass.whitespace.accepts c = true → allowsBlank padded σ = false := by
      intro hw
      cases hw.symm.trans (CharClass.whitespace_eq_false_of_digit digit)
    have ne : fresh = true → c ≠ ']' := fun _ => CharClass.ne_of_accepts digit rfl
    rw [read_cons ((step_value blank ne).trans (startValue_of_first hc)), read_number reach]
  · refine ⟨place, final, describes, ?_⟩
    have step : step o padded (.value fresh σ) '-' = some (.number .minus σ) :=
      step_value (fun hw => nomatch hw) (fun _ => by decide)
    rw [read_cons step, read_number reach]

/-- The body of a string is read in place. -/
lemma read_string_body (isKey : Bool) (h : IsStringBody o.plain cs) :
    read o padded (.string .body isKey σ) cs = some (.string .body isKey σ) := by
  have backslash (cs : List Char) : read o padded (.string .body isKey σ) ('\\' :: cs) =
    read o padded (.string .escaped isKey σ) cs := rfl
  induction h with
  | nil => rfl
  | plain hc _ ih => rw [read_cons (step_plain hc), ih]
  | @escape c cs hc _ ih =>
    have letter : CharClass.escapeLetter.accepts c = true := by
      simp only [List.mem_cons, List.not_mem_nil, or_false] at hc
      rcases hc with rfl | rfl | rfl | rfl | rfl | rfl | rfl | rfl <;> rfl
    rw [backslash, read_cons (step_escaped letter), ih]
  | unicode h₁ h₂ h₃ h₄ _ ih =>
    have start (cs : List Char) : read o padded (.string .escaped isKey σ) ('u' :: cs) =
      read o padded (.string (.hex 3) isKey σ) cs := rfl
    rw [backslash, start, read_cons (step_hex h₁), read_cons (step_hex h₂),
      read_cons (step_hex h₃), read_cons (step_hex_last h₄), ih]

/-- A string leads from where its first quote does to behind it. -/
lemma read_string {isKey : Bool} (h : IsString o.plain t)
    (hq : step o padded q '"' = some (.string .body isKey σ)) :
    read o padded q t = some (behindString isKey σ) := by
  obtain ⟨body⟩ := h
  rw [read_cons hq, read_append_of_read (read_string_body isKey body)]
  rfl

/-- A quote starts a string as a value. -/
lemma step_value_quote : step o padded (.value fresh σ) '"' = some (.string .body false σ) :=
  step_value (fun hw => nomatch hw) (fun _ => by decide)

/-- And as a key. -/
lemma step_key_quote : step o padded (.key fresh σ) '"' = some (.string .body true σ) := rfl

/-- Whitespace before a colon is skipped. -/
lemma read_colon_blank {w : List Char} (hw : IsBlank w) :
    read o padded (.colon σ) w = some (.colon σ) := by
  refine read_of_forall_step fun c hc => ?_
  rw [step, if_pos (hw c hc)]

/-- The colon calls for a value. -/
lemma step_colon : step o padded (.colon σ) ':' = some (.value false (.curly :: σ)) := rfl

/-- Whitespace before a value is skipped, where it is allowed. -/
lemma read_value_blank {w : List Char} (hw : IsBlank w) (allowed : allowsBlank padded σ = true) :
    read o padded (.value fresh σ) w = some (.value fresh σ) :=
  read_of_forall_step fun c hc => step_value_blank (hw c hc) allowed

/-- What is left of a literal is read to its end. -/
lemma read_literal (seen : List Char) (next : Char) (rest : List Char) :
    read o padded (.literal seen next rest σ) (next :: rest) = some (.after σ) := by
  induction rest generalizing seen next with
  | nil => rw [read, step, if_pos rfl]; rfl
  | cons next' rest ih => rw [read, step, if_pos rfl]; exact ih _ _

/-- A literal word starts its literal. -/
lemma startValue_word {next : Char} {rest : List Char} (enabled : o.literals = true)
    (h : c :: next :: rest ∈ literalWords) :
    startValue o σ c = some (.literal [c] next rest σ) ∧
      CharClass.whitespace.accepts c = false ∧ c ≠ ']' := by
  simp only [literalWords, List.mem_cons, List.not_mem_nil, or_false, List.cons.injEq] at h
  rcases h with ⟨rfl, rfl, rfl⟩ | ⟨rfl, rfl, rfl⟩ | ⟨rfl, rfl, rfl⟩ <;>
    refine ⟨?_, rfl, by decide⟩ <;>
    simp [startValue, startLiteral, enabled, NumberPlace.first, CharClass.accepts]

/-- Literal words are read from where a value is expected. -/
lemma read_value_literal (enabled : o.literals = true) (h : t ∈ literalWords) :
    read o padded (.value fresh σ) t = some (.after σ) := by
  obtain ⟨c, next, rest, rfl⟩ : ∃ c next rest, t = c :: next :: rest := by
    simp only [literalWords, List.mem_cons, List.not_mem_nil, or_false] at h
    rcases h with rfl | rfl | rfl <;> exact ⟨_, _, _, rfl⟩
  obtain ⟨start, blank, ne⟩ := startValue_word enabled h
  have step : step o padded (.value fresh σ) c = startValue o σ c := by
    refine step_value (fun hw => ?_) (fun _ => ne)
    cases hw.symm.trans blank
  rw [read_cons (step.trans start), read_literal]

/-- Characters that never belong to a number that could end before them. -/
def Delimits (c : Char) : Prop :=
  CharClass.whitespace.accepts c = true ∨ c ∈ [',', ']', '\x7d']

/-- Closing brackets delimit. -/
lemma delimits_closing (b : Bracket) : Delimits b.closing := by
  cases b with
  | square => exact .inr (by decide)
  | curly => exact .inr (by decide)

/-- No number goes on with a character that delimits. -/
lemma Delimits.next {place : NumberPlace} (h : Delimits c) (final : place.isFinal = true) :
    place.next c = none := by
  have other : CharClass.digit.accepts c = false ∧ c ≠ '.' ∧ c ≠ 'e' ∧ c ≠ 'E' := by
    rcases h with hw | h
    · refine ⟨?_, CharClass.ne_of_accepts hw rfl, CharClass.ne_of_accepts hw rfl,
        CharClass.ne_of_accepts hw rfl⟩
      rw [← Bool.not_eq_true]
      intro hd
      cases hw.symm.trans (CharClass.whitespace_eq_false_of_digit hd)
    · simp only [List.mem_cons, List.not_mem_nil, or_false] at h
      rcases h with rfl | rfl | rfl <;> decide
  rw [NumberPlace.next_eq_none_iff final]
  simp [other]

/-- Behind a value, a delimiter settles that it has ended. -/
lemma Ends.settled (h : q.Ends σ) (hc : ∀ c ∈ cs.head?, Delimits c) : q.Settled σ cs := by
  rcases h with rfl | ⟨place, final, rfl⟩
  · exact .inl rfl
  · exact .inr ⟨place, final, rfl, fun c h => (hc c h).next final⟩

/-- A value has ended where it has settled. -/
lemma Settled.ends (h : q.Settled σ cs) : q.Ends σ := by
  rcases h with rfl | ⟨place, final, rfl, _⟩
  · exact .inl rfl
  · exact .inr ⟨place, final, rfl⟩

/-- Where a value can end, a delimiter is read as behind it. -/
lemma Ends.step (h : q.Ends σ) (hc : Delimits c) : step o padded q c = stepBehind padded σ c := by
  have settled : q.Settled σ [c] := by
    refine h.settled ?_
    rintro _ ⟨⟩
    exact hc
  exact settled.step rfl

/-- No part of a literal is left over where a value can end. -/
lemma Ends.backlog (h : q.Ends σ) : q.backlog = [] := by
  rcases h with rfl | ⟨place, _, rfl⟩ <;> rfl

/-- Whitespace behind a settled value leaves it settled. -/
lemma Settled.read_blank (o : Options) {w : List Char} (h : q.Settled σ (w ++ cs)) (hw : IsBlank w)
    (allowed : w = [] ∨ allowsBlank padded σ = true) :
    ∃ q', read o padded q w = some q' ∧ q'.Settled σ cs := by
  cases w with
  | nil => exact ⟨q, rfl, h⟩
  | cons c w =>
    replace allowed := allowed.resolve_left (List.cons_ne_nil c w)
    obtain ⟨hc, hw⟩ := List.forall_mem_cons.1 hw
    refine ⟨.after σ, ?_, .inl rfl⟩
    rw [read_cons ((h.step rfl).trans (stepBehind_blank hc allowed))]
    exact read_of_forall_step fun c h => stepBehind_blank (hw c h) allowed

/-- Whitespace behind a value that can end leaves it ended. -/
lemma Ends.read_blank (o : Options) {w : List Char} (h : q.Ends σ) (hw : IsBlank w)
    (allowed : w = [] ∨ allowsBlank padded σ = true) :
    ∃ q', read o padded q w = some q' ∧ q'.Ends σ := by
  have settled : q.Settled σ (w ++ []) := by
    refine h.settled fun c hc => .inl (hw c ?_)
    rw [List.append_nil] at hc
    exact List.mem_of_mem_head? hc
  obtain ⟨q', hr, settled⟩ := settled.read_blank o hw allowed
  exact ⟨q', hr, settled.ends⟩

end Position

open Position

/-- How the texts of a symbol are read: values from where one is expected to behind it, lists from
behind their opening bracket, and items and their sequences from where an item is expected. -/
def Symbol.Reads (o : Options) (padded : Bool) : Symbol → List Char → Prop
  | value, t => ∀ fresh σ, ∃ q, read o padded (.value fresh σ) t = some q ∧
      (q = .after σ ∨ IsNumber t ∧ q.Ends σ)
  | compound b, t => ∃ t', t = b.opening :: t' ∧ ∀ σ, read o padded (inside true b σ) t' =
      some (.after σ)
  | items b, t => ∀ fresh σ, ∃ q, read o padded (inside fresh b σ) t = some q ∧ q.Ends (b :: σ)
  | item b, t => ∀ fresh σ, ∃ q, read o padded (inside fresh b σ) t = some q ∧ q.Ends (b :: σ)

variable {o : Options} {padded : Bool}

/-- What is read as a value can end. -/
lemma ends_of_after_or {q : Position} {σ : List Bracket} {t : List Char}
    (h : q = .after σ ∨ IsNumber t ∧ q.Ends σ) : q.Ends σ := by
  rcases h with h | ⟨_, h⟩
  · exact .inl h
  · exact h

/-- Derived texts can be read. -/
theorem Generates.reads {s : Symbol} {t : List Char} (h : Generates o s t) (padded : Bool) :
    s.Reads o padded t := by
  -- Texts of items end as values do: a number may still go on, and the next delimiter ends it.
  induction h with
  | string h =>
    intro fresh σ
    exact ⟨_, read_string h step_value_quote, .inl rfl⟩
  | number h =>
    intro fresh σ
    obtain ⟨place, final, _, read⟩ := read_value_number o padded fresh σ h
    exact ⟨_, read, .inr ⟨h, .inr ⟨place, final, rfl⟩⟩⟩
  | compound b _ ih =>
    intro fresh σ
    obtain ⟨t', rfl, read⟩ := ih
    exact ⟨_, (read_cons (step_value_opening b) t').trans (read σ), .inl rfl⟩
  | literal enabled h =>
    intro fresh σ
    exact ⟨_, read_value_literal enabled h, .inl rfl⟩
  | empty b hw =>
    refine ⟨_, rfl, fun σ => ?_⟩
    rw [read_append_of_read (read_inside_blank b hw), read_cons (step_inside_closing b)]
    rfl
  | filled b _ ih =>
    refine ⟨_, rfl, fun σ => ?_⟩
    obtain ⟨q, hr, hq⟩ := ih true σ
    rw [read_append_of_read hr,
      read_cons ((hq.step (delimits_closing b)).trans (stepBehind_closing b))]
    rfl
  | last b _ ih => exact ih
  | more b _ _ ih ihs =>
    intro fresh σ
    obtain ⟨q, hr, hq⟩ := ih fresh σ
    obtain ⟨q', hr', hq'⟩ := ihs false σ
    have comma : Delimits ',' := .inr List.mem_cons_self
    refine ⟨q', ?_, hq'⟩
    rw [read_append_of_read hr, read_cons ((hq.step comma).trans (stepBehind_comma b)), hr']
  | element hw _ hw' ih =>
    intro fresh σ
    obtain ⟨q, hr, hq⟩ := ih fresh (.square :: σ)
    obtain ⟨q', hr', hq'⟩ := (ends_of_after_or hq).read_blank o hw' (.inr rfl)
    refine ⟨q', ?_, hq'⟩
    rw [read_append_of_read (read_inside_blank .square hw), inside, read_append_of_read hr, hr']
  | member hw₁ hk hw₂ hw₃ _ hw₄ ih =>
    intro fresh σ
    obtain ⟨q, hr, hq⟩ := ih false (.curly :: σ)
    obtain ⟨q', hr', hq'⟩ := (ends_of_after_or hq).read_blank o hw₄ (.inr rfl)
    refine ⟨q', ?_, hq'⟩
    rw [read_append_of_read (read_inside_blank .curly hw₁), inside,
      read_append_of_read (read_string hk step_key_quote), behindString, if_pos rfl,
      read_append_of_read (read_colon_blank hw₂), read_cons step_colon,
      read_append_of_read (read_value_blank hw₃ rfl), read_append_of_read hr, hr']

namespace Position

variable {q q' : Position} {σ : List Bracket} {c : Char}

/-- Some rest leads to the end of a value on the outermost level. -/
def Completes (o : Options) (padded : Bool) (q : Position) : Prop :=
  ∃ rest q', read o padded q rest = some q' ∧ q'.Ends []

/-- What completes the text behind a character completes it with the character. -/
lemma Completes.of_step (h : step o padded q c = some q') (hq : q'.Completes o padded) :
    q.Completes o padded := by
  obtain ⟨rest, q'', read, ends⟩ := hq
  exact ⟨c :: rest, q'', (read_cons h rest).trans read, ends⟩

/-- Behind a value, the open brackets can be closed. -/
lemma Ends.completes (h : q.Ends σ) : q.Completes o padded := by
  induction σ generalizing q with
  | nil => exact ⟨[], q, rfl, h⟩
  | cons b σ ih =>
    have closed : Position.step o padded q b.closing = some (.after σ) :=
      (h.step (delimits_closing b)).trans (stepBehind_closing b)
    exact .of_step closed (ih (.inl rfl))

/-- A number can be completed, by a zero where it lacks a digit. -/
lemma completes_number (place : NumberPlace) (σ : List Bracket) :
    (number place σ).Completes o padded := by
  have final {place : NumberPlace} (h : place.isFinal = true) :
      (number place σ).Completes o padded := Ends.completes (.inr ⟨place, h, rfl⟩)
  have digit {place' : NumberPlace} (h : place.next '0' = some place')
      (h' : place'.isFinal = true) : (number place σ).Completes o padded :=
    .of_step (step_number h) (final h')
  cases place with
  | zero | integer | fraction | exponent => exact final rfl
  | minus | point | mark | sign => exact digit rfl rfl

/-- A value can be completed by a number. -/
lemma completes_value (fresh : Bool) (σ : List Bracket) :
    (value fresh σ).Completes o padded := by
  have zero : step o padded (value fresh σ) '0' = some (.number .zero σ) :=
    step_value (fun hw => nomatch hw) (fun _ => by decide)
  exact .of_step zero (completes_number _ σ)

/-- A string can be completed, and so can the member whose key it is. -/
lemma completes_string (place : StringPlace) (isKey : Bool) (σ : List Bracket) :
    (string place isKey σ).Completes o padded := by
  have behind : (behindString isKey σ).Completes o padded := by
    cases isKey with
    | false => exact Ends.completes (.inl rfl)
    | true => exact .of_step step_colon (completes_value false _)
  have body : (string .body isKey σ).Completes o padded := .of_step (c := '"') rfl behind
  cases place with
  | body => exact body
  | escaped => exact .of_step (c := 'n') rfl body
  | hex more =>
    induction more with
    | zero => exact .of_step (c := '0') rfl body
    | succ more ih => exact .of_step (c := '0') rfl ih

/-- From every position, some rest completes the text. -/
theorem completes (o : Options) (padded : Bool) (q : Position) : q.Completes o padded := by
  cases q with
  | opening b =>
    have behind : (after []).Completes o padded := Ends.completes (.inl rfl)
    exact .of_step (if_pos rfl) (.of_step (step_inside_closing b) behind)
  | value fresh σ => exact completes_value fresh σ
  | key fresh σ => exact .of_step step_key_quote (completes_string .body true σ)
  | colon σ => exact .of_step step_colon (completes_value false _)
  | after σ => exact Ends.completes (.inl rfl)
  | string place isKey σ => exact completes_string place isKey σ
  | number place σ => exact completes_number place σ
  | literal seen next rest σ =>
    have behind : (after σ).Completes o padded := Ends.completes (.inl rfl)
    obtain ⟨rest', q', hr, ends⟩ := behind
    refine ⟨next :: rest ++ rest', q', ?_, ends⟩
    rw [read_append_of_read (read_literal seen next rest), hr]

end Position

end Recognizer.Json
