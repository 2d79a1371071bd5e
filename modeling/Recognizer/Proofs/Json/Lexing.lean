import Recognizer.Json.Grammar
import Recognizer.Proofs.Json.Following

/-!
# Whitespace, numbers and strings follow positions

Whitespace takes all there is of it. Numbers and strings are taken as derived, and refused where
they cannot go on.
-/

namespace Recognizer.Json

open Text Position

variable {ρ : Type} {definitions : ρ → Resolution ρ} {o : Options} {padded fresh : Bool}
  {q q' : Position} {σ : List Bracket} {post : Aim} {as bs cs : List Char}

/-- A repetition takes all characters of the class that come first, and no other. -/
lemma exists_run (k : CharClass) {min count : Nat} (enough : min ≤ count) (cs : List Char) :
    ∃ as bs, cs = as ++ bs ∧ (∀ c ∈ as, k.accepts c = true) ∧
      (∀ c ∈ bs.head?, k.accepts c = false) ∧
      (Course.repeating (Pattern.ofClass k) min none count).Answers definitions cs
        (.taken as bs) := by
  -- The run ends at the first character that is not of the class.
  have stop {cs : List Char} {count : Nat} (enough : min ≤ count)
      (h : ∀ c ∈ cs.head?, k.accepts c = false) :
      (Course.repeating (Pattern.ofClass k) min none count).Answers definitions cs
        (.taken [] cs) := by
    obtain ⟨cause, ha⟩ := Pattern.refuses_satisfy definitions h
    exact Course.answers_repeating_stop rfl enough ha
  induction cs generalizing count with
  | nil => exact ⟨[], [], rfl, by simp, by simp, stop enough (by simp)⟩
  | cons c cs ih =>
    by_cases hc : k.accepts c = true
    · obtain ⟨as, bs, rfl, has, hbs, ha⟩ := ih (Nat.le_succ_of_le enough)
      refine ⟨c :: as, bs, rfl, List.forall_mem_cons.2 ⟨hc, has⟩, hbs, ?_⟩
      have one : (Pattern.ofClass k).Answers definitions (c :: (as ++ bs))
        (.taken [c] (as ++ bs)) := Pattern.answers_satisfy hc (as ++ bs)
      exact Course.answers_repeating_more rfl (List.cons_ne_nil c []) one ha
    · have head : ∀ d ∈ (c :: cs).head?, k.accepts d = false := by
        rintro d ⟨⟩
        exact Bool.eq_false_iff.2 hc
      exact ⟨[], c :: cs, rfl, by simp, head, stop enough head⟩

/-- Whitespace is skipped as far as it goes. -/
lemma exists_blank (definitions : ρ → Resolution ρ) (cs : List Char) :
    ∃ w bs, cs = w ++ bs ∧ IsBlank w ∧
    (∀ c ∈ bs.head?, CharClass.whitespace.accepts c = false) ∧
    (whitespace : Pattern ρ).Answers definitions cs (.taken w bs) := by
  obtain ⟨w, bs, hcs, hw, hbs, ha⟩ := exists_run .whitespace (Nat.le_refl 0) cs
  exact ⟨w, bs, hcs, hw, hbs, ha.repeated⟩

/-- A number that cannot end here is not read on by what does not belong to it. -/
lemma step_number_eq_none {place : NumberPlace} {c : Char} (h : place.isFinal = false)
    (hc : place.next c = none) : step o padded (.number place σ) c = none := by
  rw [step, hc, h]
  rfl

/-- Digits follow positions up to the first character that is none. -/
lemma follows_digits {place : NumberPlace} (hq : q.Waits)
    (hd : ∀ c, CharClass.digit.accepts c = true → step o padded q c = some (.number place σ))
    (hd' : ∀ c, CharClass.digit.accepts c = true → place.next c = some place)
    (hn : ∀ c ∈ cs.head?, CharClass.digit.accepts c = false → step o padded q c = none) :
    Follows o padded q ((digits : Pattern ρ).Answers definitions cs) cs fun as q' bs =>
      IsDigits as ∧ q' = .number place σ ∧ ∀ c ∈ bs.head?, CharClass.digit.accepts c = false := by
  rcases accepts_cases CharClass.digit.accepts cs with ⟨c, cs, rfl, digit⟩ | head
  · obtain ⟨as, bs, rfl, has, hbs, ha⟩ := exists_run .digit (Nat.le_refl 1) cs
    have one : (Pattern.ofClass .digit : Pattern ρ).Answers definitions (c :: (as ++ bs))
      (.taken [c] (as ++ bs)) := Pattern.answers_satisfy digit (as ++ bs)
    have run : (Course.repeating (Pattern.ofClass .digit) 1 none 0).Answers definitions
        (c :: (as ++ bs)) (.taken ([c] ++ as) bs) :=
      Course.answers_repeating_more rfl (List.cons_ne_nil c []) one ha
    have read : read o padded q (c :: as) = some (.number place σ) := by
      rw [read_cons (hd c digit)]
      exact read_number (NumberPlace.reach_of_forall hd' has)
    exact .taken run.repeated read ⟨⟨digit, has⟩, rfl, hbs⟩
  · obtain ⟨cause, ha⟩ := Pattern.refuses_satisfy definitions head
    have early : (Course.repeating (Pattern.ofClass .digit) 1 none 0).Answers definitions cs
      (.refused { cause }) := Course.refuses_repeating rfl Nat.zero_lt_one ha
    exact .refused early.repeated rfl hq fun c hc => hn c hc (head c hc)

/-- A number may start with any digit. -/
lemma first_ne_none_of_digit {c : Char} (h : CharClass.digit.accepts c = true) :
    ∃ place, NumberPlace.first c = some place := by
  rw [NumberPlace.first]
  by_cases zero : c = '0'
  · exact ⟨_, if_pos zero⟩
  · exact ⟨_, by rw [if_neg zero, if_pos (CharClass.nonzeroDigit_of_digit h zero)]⟩

/-- What comes behind an integer without a sign. -/
def AfterInteger (σ : List Bracket) (q : Position) (bs : List Char) : Prop :=
  ∃ place : NumberPlace, place.BeforePoint ∧ q = .number place σ ∧
    ∀ c ∈ bs.head?, place.next c = none ∨ c = '.' ∨ c = 'e' ∨ c = 'E'

/-- What comes behind a fraction or its absence. -/
def AfterFraction (σ : List Bracket) (q : Position) (bs : List Char) : Prop :=
  ∃ place : NumberPlace, place.BeforeMark ∧ q = .number place σ ∧
    ∀ c ∈ bs.head?, place.next c = none ∨ c = 'e' ∨ c = 'E'

/-- Behind a zero no digit belongs to the number. -/
lemma afterInteger_zero (bs : List Char) : AfterInteger σ (.number .zero σ) bs := by
  refine ⟨.zero, .inl rfl, rfl, fun c _ => ?_⟩
  rw [NumberPlace.next_eq_none_iff rfl]
  by_cases point : c = '.'
  · exact .inr (.inl point)
  · by_cases mark : c = 'e' ∨ c = 'E'
    · exact .inr (.inr mark)
    · exact .inl ⟨fun _ => rfl, fun h => absurd h point, fun h => absurd h mark⟩

/-- Behind other digits the next one would. -/
lemma afterInteger_integer (h : ∀ c ∈ bs.head?, CharClass.digit.accepts c = false) :
    AfterInteger σ (.number .integer σ) bs := by
  refine ⟨.integer, .inr rfl, rfl, fun c hc => ?_⟩
  rw [NumberPlace.next_eq_none_iff rfl]
  by_cases point : c = '.'
  · exact .inr (.inl point)
  · by_cases mark : c = 'e' ∨ c = 'E'
    · exact .inr (.inr mark)
    · refine .inl ⟨fun digit => ?_, fun h => absurd h point, fun h => absurd h mark⟩
      cases digit.symm.trans (h c hc)

/-- An integer that does not start with zero takes all digits. -/
lemma follows_nonzero (hq : q.Waits)
    (hstep : ∀ c ∈ cs.head?, step o padded q c =
      (NumberPlace.first c).map fun place => .number place σ) (ne : '0' ∉ cs.head?) :
    Follows o padded q ((Pattern.concat [.ofClass .nonzeroDigit,
        (Pattern.ofClass .digit).many] : Pattern ρ).Answers definitions cs) cs fun as q' bs =>
      IsInteger as ∧ AfterInteger σ q' bs := by
  have start {c : Char} (hc : c ∈ cs.head?) : step o padded q c =
      (if CharClass.nonzeroDigit.accepts c = true then some .integer else none).map fun place =>
        .number place σ := by
    have zero : c ≠ '0' := fun e => ne (e ▸ hc)
    rw [hstep c hc, NumberPlace.first, if_neg zero]
  have lead : Follows o padded q ((Pattern.ofClass .nonzeroDigit : Pattern ρ).Answers definitions
      cs) cs fun as q' _ => ∃ c, CharClass.nonzeroDigit.accepts c = true ∧ as = [c] ∧
      q' = .number .integer σ := by
    refine follows_satisfy (fun c bs hcs hc => ?_) (fun c hc h => ?_) hq
    · subst hcs
      exact ⟨_, by rw [start rfl, if_pos hc]; rfl, c, hc, rfl, rfl⟩
    · rw [start hc, h]
      rfl
  refine .concat (follows_parts_cons lead ?_)
  rintro _ cs' _ - - ⟨c, hc, rfl, rfl⟩
  obtain ⟨ds, bs, rfl, hds, hbs, ha⟩ := exists_run .digit (Nat.le_refl 0) cs'
  have run : read o padded (.number .integer σ) ds = some (.number .integer σ) :=
    read_number (NumberPlace.reach_of_forall (fun _ => NumberPlace.next_integer) hds)
  refine follows_parts_taken ha.repeated run (follows_parts_nil ?_)
  rw [Aim.behind, Aim.behind, List.append_nil]
  exact ⟨.digits hc hds, afterInteger_integer hbs⟩

/-- An integer without its sign, where a number may go on with it. -/
lemma follows_unsigned (hq : q.Waits)
    (hstep : ∀ c ∈ cs.head?, step o padded q c =
      (NumberPlace.first c).map fun place => .number place σ) :
    Follows o padded q ((Pattern.firstOf [.char '0', .concat [.ofClass .nonzeroDigit,
        (Pattern.ofClass .digit).many]] : Pattern ρ).Answers definitions cs) cs fun as q' bs =>
      IsInteger as ∧ AfterInteger σ q' bs := by
  by_cases zero : '0' ∈ cs.head?
  · obtain ⟨bs, rfl⟩ := List.head?_eq_some_iff.1 zero
    have zero : (Pattern.char '0' : Pattern ρ).Answers definitions ('0' :: bs)
        (.taken ['0'] bs) := Pattern.answers_char '0' bs
    exact .taken (Pattern.answers_firstOf (List.forall_mem_nil _) zero)
      (read_cons (hstep '0' rfl) []) ⟨.zero, afterInteger_zero bs⟩
  · have declines : (Pattern.char '0' : Pattern ρ).Declines definitions cs := by
      refine Pattern.declines_char fun c hc => ?_
      rintro rfl
      exact zero hc
    have others : ∀ p ∈ [(Pattern.char '0' : Pattern ρ)], p.Declines definitions cs := by
      rintro p hp
      rwa [List.mem_singleton.1 hp]
    exact follows_firstOf others (follows_nonzero hq hstep zero) (List.forall_mem_nil _)

/-- An optional character is taken if it is there. -/
lemma optional_of_head (definitions : ρ → Resolution ρ) {d : Char} (h : d ∈ cs.head?) :
    ∃ bs, cs = [d] ++ bs ∧
    (Pattern.optional (.char d) : Pattern ρ).Answers definitions cs (.taken [d] bs) := by
  obtain ⟨bs, rfl⟩ := List.head?_eq_some_iff.1 h
  exact ⟨bs, rfl, Pattern.answers_optional (Pattern.answers_char d bs)⟩

/-- An optional pattern takes nothing where its body declines. -/
lemma optional_of_declines {p : Pattern ρ} (h : p.Declines definitions cs) :
    (Pattern.optional p).Answers definitions cs (.taken [] cs) := by
  obtain ⟨e, _, ha⟩ := h
  exact Pattern.answers_optional_of_refused ha

/-- An optional character that is absent is not taken. -/
lemma optional_of_absent (definitions : ρ → Resolution ρ) {d : Char} (h : d ∉ cs.head?) :
    (Pattern.optional (.char d) : Pattern ρ).Answers definitions cs (.taken [] cs) := by
  refine optional_of_declines (Pattern.declines_char fun c hc => ?_)
  rintro rfl
  exact h hc

/-- The digits of an integer follow its sign or absence. -/
lemma follows_signed {minus : List Char} (hm : IsMinus minus)
    (ha : (Pattern.optional (.char '-') : Pattern ρ).Answers definitions (minus ++ bs)
      (.taken minus bs))
    (hr : read o padded q minus = some q') (hq : q'.Waits)
    (hstep : ∀ c ∈ bs.head?, step o padded q' c =
      (NumberPlace.first c).map fun place => .number place σ) :
    Follows o padded q ((integer : Pattern ρ).Answers definitions (minus ++ bs)) (minus ++ bs)
      fun as q' bs => (∃ minus digits, as = minus ++ digits ∧ IsMinus minus ∧ IsInteger digits) ∧
        AfterInteger σ q' bs := by
  refine .concat (follows_parts_taken ha hr ?_)
  refine follows_parts_cons (follows_unsigned hq hstep) ?_
  rintro digits bs q'' rfl - ⟨hi, after⟩
  refine follows_parts_nil ⟨⟨minus, digits, ?_, hm, hi⟩, after⟩
  rw [List.append_nil]

/-- An integer follows positions. -/
lemma follows_integer (hstep : ∀ c ∈ cs.head?, step o padded (.value fresh σ) c = startValue o σ c)
    (hc : '-' ∈ cs.head? ∨ ∃ c ∈ cs.head?, CharClass.digit.accepts c = true) :
    Follows o padded (.value fresh σ) ((integer : Pattern ρ).Answers definitions cs) cs
      fun as q' bs => (∃ minus digits, as = minus ++ digits ∧ IsMinus minus ∧ IsInteger digits) ∧
        AfterInteger σ q' bs := by
  by_cases minus : '-' ∈ cs.head?
  · obtain ⟨bs, rfl, ha⟩ := optional_of_head definitions minus
    have start : read o padded (.value fresh σ) ['-'] = some (.number .minus σ) :=
      read_cons (hstep '-' rfl) []
    refine follows_signed .present ha start (waits_number rfl) fun c _ => ?_
    rw [step, NumberPlace.next]
    cases NumberPlace.first c with
    | none => rfl
    | some place => rfl
  · obtain ⟨c, hc, digit⟩ := hc.resolve_left minus
    -- Without a sign, the digits start where the value does.
    have hr : read o padded (.value fresh σ) [] = some (.value fresh σ) := rfl
    refine follows_signed .absent (optional_of_absent definitions minus) hr waits_value ?_
    intro c' hc'
    cases Option.mem_unique hc hc'
    obtain ⟨place, first⟩ := first_ne_none_of_digit digit
    rw [hstep c hc, startValue_of_first first, first]
    rfl

/-- A fraction follows positions behind an integer. -/
lemma follows_fraction (h : AfterInteger σ q cs) :
    Follows o padded q ((fraction : Pattern ρ).Answers definitions cs) cs fun as q' bs =>
      IsFraction as ∧ AfterFraction σ q' bs := by
  obtain ⟨place, hp, rfl, hcs⟩ := h
  by_cases point : '.' ∈ cs.head?
  · obtain ⟨bs, rfl⟩ := List.head?_eq_some_iff.1 point
    have start : read o padded (.number place σ) ['.'] = some (.number .point σ) :=
      read_cons (step_number hp.next) []
    have digits : Follows o padded (.number .point σ) ((digits : Pattern ρ).Answers definitions
        bs) bs _ := follows_digits (waits_number rfl)
      (fun _ h => step_number (NumberPlace.next_point h)) (fun _ => NumberPlace.next_fraction)
      fun c _ h => step_number_eq_none rfl (by rw [NumberPlace.next, h]; rfl)
    refine .behind start (digits.aim ?_) (Pattern.answers_implies (Pattern.answers_char '.' bs))
    rintro ds bs q' rfl - ⟨hds, rfl, hbs⟩
    refine ⟨.present hds, .fraction, .inr rfl, rfl, fun c hc => ?_⟩
    rw [NumberPlace.next_eq_none_iff rfl]
    by_cases mark : c = 'e' ∨ c = 'E'
    · exact .inr mark
    · refine .inl ⟨fun digit => ?_, fun _ => .inl rfl, fun h => absurd h mark⟩
      cases digit.symm.trans (hbs c hc)
  · have declines : (Pattern.char '.' : Pattern ρ).Declines definitions cs :=
      Pattern.declines_char fun c hc e => point (e ▸ hc)
    obtain ⟨e, _, ha⟩ := declines
    refine .taken_nil (Pattern.answers_implies_of_refused ha digits)
      ⟨.absent, place, .inl hp, rfl, ?_⟩
    intro c hc
    rcases hcs c hc with h | rfl | h
    · exact .inl h
    · exact absurd hc point
    · exact .inr h

/-- A choice of two characters takes either. -/
lemma answers_pair {x y c : Char} (h : c = x ∨ c = y) (bs : List Char) :
    (Pattern.firstOf [.char x, .char y] : Pattern ρ).Answers definitions (c :: bs)
      (.taken [c] bs) := by
  by_cases hx : c = x
  · subst hx
    exact Pattern.answers_firstOf (List.forall_mem_nil _) (Pattern.answers_char c bs)
  · obtain rfl := h.resolve_left hx
    have declines : (Pattern.char x : Pattern ρ).Declines definitions (c :: bs) :=
      Pattern.declines_char (by simpa using hx)
    have before : ∀ p ∈ [(Pattern.char x : Pattern ρ)], p.Declines definitions (c :: bs) :=
      List.forall_mem_singleton.2 declines
    exact Pattern.answers_firstOf before (Pattern.answers_char c bs)

/-- And declines any other. -/
lemma declines_pair (definitions : ρ → Resolution ρ) {x y : Char}
    (h : ∀ c ∈ cs.head?, ¬ (c = x ∨ c = y)) :
    (Pattern.firstOf [.char x, .char y] : Pattern ρ).Declines definitions cs := by
  refine Pattern.Declines.firstOf (List.forall_mem_cons.2 ⟨?_, List.forall_mem_singleton.2 ?_⟩)
  · exact Pattern.declines_char fun c hc e => h c hc (.inl e)
  · exact Pattern.declines_char fun c hc e => h c hc (.inr e)

/-- The end of a number with an exponent. -/
def AfterExponent (σ : List Bracket) (q : Position) (bs : List Char) : Prop :=
  (∃ place, q = .number place σ) ∧ q.Settled σ bs

/-- What an exponent mark calls for, its sign known. -/
lemma follows_magnitude {mark : Char} {sign : List Char} {place : NumberPlace}
    (hm : mark = 'e' ∨ mark = 'E') (hs : IsSign sign)
    (ha : (Pattern.optional (.firstOf [.char '+', .char '-']) : Pattern ρ).Answers definitions
      (sign ++ bs) (.taken sign bs))
    (hr : read o padded q sign = some (.number place σ)) (waits : place.isFinal = false)
    (hd : ∀ c, CharClass.digit.accepts c = true → place.next c = some .exponent)
    (hn : ∀ c ∈ bs.head?, CharClass.digit.accepts c = false → place.next c = none) :
    Follows o padded q ((Pattern.concat [.optional (.firstOf [.char '+', .char '-']),
        digits] : Pattern ρ).Answers definitions (sign ++ bs)) (sign ++ bs) fun as q' bs =>
      IsExponent (mark :: as) ∧ AfterExponent σ q' bs := by
  refine .concat (follows_parts_taken ha hr ?_)
  refine follows_parts_cons (follows_digits (waits_number waits) (fun c h => step_number (hd c h))
    (fun _ => NumberPlace.next_exponent) fun c hc h => step_number_eq_none waits (hn c hc h)) ?_
  rintro ds bs q' rfl - ⟨hds, rfl, hbs⟩
  refine follows_parts_nil ⟨?_, ⟨_, rfl⟩, .inr ⟨.exponent, rfl, rfl, fun c hc => ?_⟩⟩
  · rw [List.append_nil]
    exact .present hm hs hds
  · rw [NumberPlace.next, hbs c hc]
    rfl

/-- An exponent follows positions behind a fraction. -/
lemma follows_exponent (h : AfterFraction σ q cs) :
    Follows o padded q ((exponent : Pattern ρ).Answers definitions cs) cs fun as q' bs =>
      IsExponent as ∧ AfterExponent σ q' bs := by
  obtain ⟨place, hp, rfl, hcs⟩ := h
  rcases head_cases (fun c => c = 'e' ∨ c = 'E') cs with ⟨mark, cs, rfl, hm⟩ | other
  · have start : read o padded (.number place σ) [mark] = some (.number .mark σ) :=
      read_cons (step_number (hp.next hm)) []
    refine .behind start ?_ (Pattern.answers_implies (answers_pair hm cs))
    rcases head_cases (fun c => c = '+' ∨ c = '-') cs with ⟨sign, cs, rfl, hs⟩ | other
    · have step : read o padded (.number .mark σ) [sign] = some (.number .sign σ) :=
        read_cons (step_number (by rw [NumberPlace.next, if_pos hs])) []
      refine follows_magnitude hm (.singleton hs) (Pattern.answers_optional (answers_pair hs cs))
        step rfl (fun _ => NumberPlace.next_sign) fun c _ h => ?_
      rw [NumberPlace.next, h]
      rfl
    · have hr : read o padded (.number .mark σ) [] = some (.number .mark σ) := rfl
      refine follows_magnitude hm .absent (optional_of_declines (declines_pair definitions other))
        hr rfl (fun _ => NumberPlace.next_mark) fun c hc h => ?_
      rw [NumberPlace.next, if_neg (other c hc), h]
      rfl
  · obtain ⟨e, _, ha⟩ := declines_pair definitions other
    have final : place.isFinal = true := by
      rcases hp with (rfl | rfl) | rfl <;> rfl
    refine .taken_nil (Pattern.answers_implies_of_refused ha _) ⟨.absent, ⟨place, rfl⟩, ?_⟩
    exact .inr ⟨place, final, rfl, fun c hc => (hcs c hc).resolve_right (other c hc)⟩

/-- A number follows positions. -/
lemma follows_number
    (hstep : ∀ c ∈ cs.head?, step o padded (.value fresh σ) c = startValue o σ c)
    (hc : '-' ∈ cs.head? ∨ ∃ c ∈ cs.head?, CharClass.digit.accepts c = true) :
    Follows o padded (.value fresh σ) ((number : Pattern ρ).Answers definitions cs) cs
      fun as q' bs => IsNumber as ∧ AfterExponent σ q' bs := by
  refine .context _ (.concat (follows_parts_cons (follows_integer hstep hc) ?_))
  rintro _ cs₁ q₁ - - ⟨⟨minus, integer, rfl, hm, hi⟩, after₁⟩
  refine follows_parts_cons (follows_fraction after₁) ?_
  rintro fraction cs₂ q₂ - - ⟨hf, after₂⟩
  refine follows_parts_cons (follows_exponent after₂) ?_
  rintro exponent cs₃ q₃ - - ⟨hx, after₃⟩
  refine follows_parts_nil ⟨?_, after₃⟩
  rw [List.append_nil, List.append_assoc]
  exact .intro hm hi hf hx

/-- It declines what starts otherwise. -/
lemma declines_number (minus : '-' ∉ cs.head?)
    (digit : ∀ c ∈ cs.head?, CharClass.digit.accepts c = false) :
    (number : Pattern ρ).Declines definitions cs := by
  have sign := optional_of_absent definitions minus
  have zero : (Pattern.char '0' : Pattern ρ).Declines definitions cs :=
    Pattern.declines_char fun c hc e => by cases e ▸ digit c hc
  have nonzero : (Pattern.ofClass .nonzeroDigit : Pattern ρ).Declines definitions cs := by
    refine Pattern.declines_satisfy fun c hc => Bool.eq_false_iff.2 fun h => ?_
    cases (CharClass.digit_of_nonzeroDigit h).symm.trans (digit c hc)
  refine .context (.concat (.concat_of_taken_nil sign (.firstOf ?_))) _
  exact List.forall_mem_cons.2 ⟨zero, List.forall_mem_singleton.2 nonzero.concat⟩

variable {isKey : Bool}

/-- A text that can stand anywhere between the quotes of a string. -/
def IsStringPart (o : Options) (as : List Char) : Prop :=
  ∀ cs, IsStringBody o.plain cs → IsStringBody o.plain (as ++ cs)

/-- Repetitions of exactly four digits, `count` of which have been taken. -/
abbrev hexCourse (ρ : Type) (count : Nat) : Course ρ :=
  Course.repeating (.ofClass .hexDigit) 4 (some 4) count

/-- One more hexadecimal digit, and those that are left. -/
lemma follows_hex_digit {more count : Nat} (early : count < 4)
    (hstep : ∀ c, CharClass.hexDigit.accepts c = true →
      step o padded (.string (.hex more) isKey σ) c = some q')
    (h : ∀ c cs, CharClass.hexDigit.accepts c = true →
      Follows o padded q' ((hexCourse ρ (count + 1)).Answers definitions cs) cs (post.behind [c])) :
    Follows o padded (.string (.hex more) isKey σ) ((hexCourse ρ count).Answers definitions cs) cs
      post := by
  have room : belowMax (some 4) count = true := decide_eq_true early
  rcases accepts_cases CharClass.hexDigit.accepts cs with ⟨c, cs, rfl, hex⟩ | other
  · have one : (Pattern.ofClass .hexDigit : Pattern ρ).Answers definitions (c :: cs)
      (.taken [c] cs) := Pattern.answers_satisfy hex cs
    exact (h c cs hex).behind (read_cons (hstep c hex) [])
      (Course.answers_repeating_more room (List.cons_ne_nil c []) one)
  · obtain ⟨cause, ha⟩ := Pattern.refuses_satisfy definitions other
    exact .refused (Course.refuses_repeating room early ha) rfl (waits_string _ _)
      fun c hc => step_hex_eq_none (other c hc)

/-- The hexadecimal digits of an escape, from the place before `more` others on. -/
lemma follows_hex {more count : Nat} (h : count + more + 1 = 4) :
    Follows o padded (.string (.hex more) isKey σ) ((hexCourse ρ count).Answers definitions cs) cs
      fun as q' _ => as.length = more + 1 ∧ (∀ c ∈ as, CharClass.hexDigit.accepts c = true) ∧
        q' = .string .body isKey σ := by
  -- The digits that are missing are counted down, those that have been taken are counted up.
  induction more generalizing count cs with
  | zero =>
    refine follows_hex_digit (by omega) (fun c => step_hex_last) fun c cs hex => ?_
    have full : belowMax (some 4) (count + 1) = false := decide_eq_false (by omega)
    refine .taken_nil (Course.answers_repeating_full full (by omega) cs) ?_
    exact ⟨rfl, List.forall_mem_singleton.2 hex, rfl⟩
  | succ more ih =>
    refine follows_hex_digit (by omega) (fun c => step_hex) fun c cs hex => ?_
    refine (ih (by omega)).aim ?_
    rintro as bs q' rfl - ⟨length, has, rfl⟩
    exact ⟨congrArg Nat.succ length, List.forall_mem_cons.2 ⟨hex, has⟩, rfl⟩

/-- Four hexadecimal digits behind their mark stand for a character. -/
lemma isStringPart_unicode (length : as.length = 4)
    (h : ∀ c ∈ as, CharClass.hexDigit.accepts c = true) : IsStringPart o ('\\' :: 'u' :: as) := by
  match as, length with
  | [a, b, c, d], _ =>
    simp only [List.forall_mem_cons] at h
    exact fun cs hcs => .unicode h.1 h.2.1 h.2.2.1 h.2.2.2.1 hcs

/-- The letters of escapes are these. -/
lemma mem_of_escapeLetter {c : Char} (h : CharClass.escapeLetter.accepts c = true) :
    c ∈ ['"', '\\', '/', 'b', 'f', 'n', 'r', 't'] := by
  simp only [CharClass.accepts, Bool.or_eq_true, beq_iff_eq] at h
  simpa only [List.mem_cons, List.not_mem_nil, or_false, or_assoc] using h

/-- What comes behind a backslash follows positions. -/
lemma follows_escaped :
    Follows o padded (.string .escaped isKey σ) ((Pattern.firstOf [.ofClass .escapeLetter,
        .concat [.char 'u', (Pattern.ofClass .hexDigit).exactly 4]] : Pattern ρ).Answers
        definitions cs) cs fun as q' _ =>
      IsStringPart o ('\\' :: as) ∧ q' = .string .body isKey σ := by
  rcases accepts_cases CharClass.escapeLetter.accepts cs with ⟨c, cs, rfl, letter⟩ | other
  · have one : (Pattern.ofClass .escapeLetter : Pattern ρ).Answers definitions (c :: cs)
      (.taken [c] cs) := Pattern.answers_satisfy letter cs
    refine .taken (Pattern.answers_firstOf (List.forall_mem_nil _) one)
      (read_cons (step_escaped letter) []) ⟨fun cs' h => ?_, rfl⟩
    exact .escape (mem_of_escapeLetter letter) h
  · have declines : ∀ p ∈ [(Pattern.ofClass .escapeLetter : Pattern ρ)],
        p.Declines definitions cs := List.forall_mem_singleton.2 (Pattern.declines_satisfy other)
    have start : step o padded (.string .escaped isKey σ) 'u' =
      some (.string (.hex 3) isKey σ) := rfl
    refine follows_firstOf declines (.concat (follows_parts_char start ?_ (waits_string _ _) ?_))
      (List.forall_mem_nil _)
    · intro c hc ne
      rw [step, stepString, other c hc, if_neg Bool.false_ne_true, if_neg ne]
    · intro bs _
      have run : Follows o padded (.string (.hex 3) isKey σ)
        ((hexCourse ρ 0).Answers definitions bs) bs _ := follows_hex rfl
      refine follows_parts_cons (run.map (fun ha => ha.repeated) fun ha => ⟨_, ha.repeated, rfl⟩) ?_
      rintro as bs q' rfl - ⟨length, has, rfl⟩
      refine follows_parts_nil ⟨?_, rfl⟩
      rw [List.append_nil]
      exact isStringPart_unicode length has

/-- An escape follows positions and stands in a string. -/
lemma follows_escape :
    Follows o padded (.string .body isKey σ) ((escape : Pattern ρ).Answers definitions
        ('\\' :: cs)) ('\\' :: cs) fun as q' _ =>
      as ≠ [] ∧ IsStringPart o as ∧ q' = .string .body isKey σ := by
  have start : read o padded (.string .body isKey σ) ['\\'] =
    some (.string .escaped isKey σ) := rfl
  have one : (Pattern.char '\\' : Pattern ρ).Answers definitions (['\\'] ++ cs)
    (.taken ['\\'] cs) := Pattern.answers_char '\\' cs
  refine .concat (follows_parts_taken one start ?_)
  refine follows_parts_cons (follows_escaped.label _) ?_
  rintro as bs q' - - ⟨part, rfl⟩
  refine follows_parts_nil ⟨List.cons_ne_nil _ _, ?_, rfl⟩
  rwa [List.append_nil]

/-- One round of a string: a plain character or an escape. -/
lemma follows_part (ne : cs ≠ []) (quote : '"' ∉ cs.head?) :
    Follows o padded (.string .body isKey σ)
      ((Pattern.firstOf [.ofClass o.plain, escape] : Pattern ρ).Answers definitions cs) cs
      fun as q' _ => as ≠ [] ∧ IsStringPart o as ∧ q' = .string .body isKey σ := by
  rcases accepts_cases o.plain.accepts cs with ⟨c, cs, rfl, plain⟩ | other
  · have one : (Pattern.ofClass o.plain : Pattern ρ).Answers definitions (c :: cs)
      (.taken [c] cs) := Pattern.answers_satisfy plain cs
    exact .taken (Pattern.answers_firstOf (List.forall_mem_nil _) one)
      (read_cons (step_plain plain) []) ⟨List.cons_ne_nil c [], fun _ => .plain plain, rfl⟩
  · have declines : (Pattern.ofClass o.plain : Pattern ρ).Declines definitions cs :=
      Pattern.declines_satisfy other
    by_cases backslash : '\\' ∈ cs.head?
    · obtain ⟨cs, rfl⟩ := List.head?_eq_some_iff.1 backslash
      have before : ∀ p ∈ [(Pattern.ofClass o.plain : Pattern ρ)],
        p.Declines definitions ('\\' :: cs) := List.forall_mem_singleton.2 declines
      exact follows_firstOf before follows_escape (List.forall_mem_nil _)
    · have escape : (escape : Pattern ρ).Declines definitions cs :=
        .concat (Pattern.declines_char fun c hc e => backslash (e ▸ hc))
      have both : ∀ p ∈ [Pattern.ofClass o.plain, Json.escape], p.Declines definitions cs :=
        List.forall_mem_cons.2 ⟨declines, List.forall_mem_singleton.2 escape⟩
      refine follows_firstOf_of_declines both (waits_string _ _) ?_
      intro c hc
      have ne {d : Char} (hd : d ∉ cs.head?) : c ≠ d := fun e => hd (e ▸ hc)
      rw [step, stepString, if_neg (ne quote), if_neg (ne backslash), other c hc,
        if_neg Bool.false_ne_true]

/-- What comes behind something is shorter. -/
lemma length_lt_of_ne_nil (ne : as ≠ []) (bs : List Char) : bs.length < (as ++ bs).length := by
  rw [List.length_append]
  exact Nat.lt_add_of_pos_left (List.length_pos_iff.2 ne)

/-- The inside of a string with its last quote. -/
lemma follows_scan (cs : List Char) :
    Follows o padded (.string .body isKey σ)
      ((Course.scanning (.char '"') (.firstOf [.ofClass o.plain, escape]) : Course ρ).Answers
        definitions cs) cs fun as q' _ =>
      (∃ body, as = body ++ ['"'] ∧ IsStringBody o.plain body) ∧ q' = behindString isKey σ := by
  -- Every round takes something, so the text gets shorter from round to round.
  induction h : cs.length using Nat.strongRecOn generalizing cs with
  | ind n ih =>
  subst h
  by_cases quote : '"' ∈ cs.head?
  · obtain ⟨bs, rfl⟩ := List.head?_eq_some_iff.1 quote
    have last : read o padded (.string .body isKey σ) ['"'] = some (behindString isKey σ) := rfl
    exact .taken (Course.answers_scanning_stop (Pattern.answers_char '"' bs)) last
      ⟨⟨[], rfl, .nil⟩, rfl⟩
  · have declines : (Pattern.char '"' : Pattern ρ).Declines definitions cs :=
      Pattern.declines_char fun c hc e => quote (e ▸ hc)
    obtain ⟨e, _, ha⟩ := declines
    by_cases ne : cs = []
    · subst ne
      exact .refused (Course.refuses_scanning_nil ha) rfl (waits_string _ _) (by simp)
    · refine (follows_part ne quote).bind ?_ fun {e} hr =>
        ⟨e, Course.refuses_scanning ha ne hr, rfl⟩
      rintro as bs _ rfl hp ⟨nonempty, part, rfl⟩ hr
      have rest := ih bs.length (length_lt_of_ne_nil nonempty bs) bs rfl
      refine .behind hr (rest.aim ?_) (Course.answers_scanning_more ha nonempty hp)
      rintro _ bs _ - - ⟨⟨body, rfl, hb⟩, rfl⟩
      exact ⟨⟨as ++ body, (List.append_assoc as body _).symm, part body hb⟩, rfl⟩

/-- A string, from where its first quote leads into it. -/
lemma follows_string (hq : q.Waits) (hd : step o padded q '"' = some (.string .body isKey σ))
    (hr : ∀ c ∈ cs.head?, c ≠ '"' → step o padded q c = none) :
    Follows o padded q ((stringOf o.plain : Pattern ρ).Answers definitions cs) cs fun as q' _ =>
      IsString o.plain as ∧ q' = behindString isKey σ := by
  refine .context _ (.concat (follows_parts_char hd hr hq fun bs _ => ?_))
  have scan : Follows o padded (.string .body isKey σ) ((Course.scanning (.char '"')
      (.firstOf [.ofClass o.plain, escape]) : Course ρ).Answers definitions bs) bs _ :=
    follows_scan bs
  refine follows_parts_cons (scan.map (fun ha => ha.scan) fun ha => ⟨_, ha.scan, rfl⟩) ?_
  rintro _ bs _ - - ⟨⟨body, rfl, hb⟩, rfl⟩
  refine follows_parts_nil ⟨?_, rfl⟩
  rw [List.append_nil]
  exact .intro hb

/-- Strings decline what does not start with a quote. -/
lemma declines_string (quote : '"' ∉ cs.head?) :
    (stringOf o.plain : Pattern ρ).Declines definitions cs :=
  have first : (Pattern.char '"' : Pattern ρ).Declines definitions cs :=
    Pattern.declines_char fun _ hc e => quote (e ▸ hc)
  first.concat.context _

/-- Strings differ in what is plain in them only. -/
lemma stringFor_eq (o : Options) : stringFor o = stringOf o.plain := by
  rw [stringFor, Options.plain]
  split <;> rfl

end Recognizer.Json
