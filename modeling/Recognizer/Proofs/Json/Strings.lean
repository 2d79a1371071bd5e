import Recognizer.Proofs.Json.Tokens

/-!
# Strings

`Inside` tells what becomes of a text behind the opening quote: it follows the units of the string,
up to a closing quote or to the place where the string breaks off (`BreaksOff`). The pattern answers
as it says. So strings are taken up to the first quote that is not escaped, and refused where they
break off (`parse_string`).
-/

namespace Recognizer.Json

open Text Position

variable {ρ : Type} {definitions : ρ → Resolution ρ} {o : Options} {k : CharClass}
  {as bs cs digits part : List Char} {cause : Cause} {v : Verdict} {e : Rejection}

/-- A backslash and what it escapes. -/
inductive IsEscape : List Char → Prop where
  | letter {c : Char} : CharClass.escapeLetter.accepts c = true → IsEscape ['\\', c]
  | unicode {digits : List Char} : digits.length = 4 →
    (∀ c ∈ digits, CharClass.hexDigit.accepts c = true) → IsEscape ('\\' :: 'u' :: digits)

/-- The inside of a string breaks off behind the start `part` of a unit: at the end of the text, at
what is no escape behind a backslash, or at what is none of the four hexadecimal digits. -/
inductive BreaksOff : List Char → List Char → Cause → Prop where
  | ended : BreaksOff [] [] .unterminated
  | letter {rest : List Char} :
    (∀ c ∈ rest.head?, CharClass.escapeLetter.accepts c = false ∧ c ≠ 'u') →
    BreaksOff ['\\'] rest (.stated "invalid escape sequence")
  | unicode {digits rest : List Char} : digits.length < 4 →
    (∀ c ∈ digits, CharClass.hexDigit.accepts c = true) →
    (∀ c ∈ rest.head?, CharClass.hexDigit.accepts c = false) →
    BreaksOff ('\\' :: 'u' :: digits) rest (.missing rest)

/-- At most `n` hexadecimal digits come next. -/
lemma exists_hexDigits (n : Nat) (cs : List Char) :
    ∃ digits bs, cs = digits ++ bs ∧ (∀ c ∈ digits, CharClass.hexDigit.accepts c = true) ∧
      (digits.length = n ∨
        digits.length < n ∧ ∀ c ∈ bs.head?, CharClass.hexDigit.accepts c = false) := by
  induction n generalizing cs with
  | zero => exact ⟨[], cs, rfl, nofun, .inl rfl⟩
  | succ n ih =>
    rcases accepts_cases CharClass.hexDigit.accepts cs with ⟨c, cs, rfl, hex⟩ | other
    · obtain ⟨digits, bs, rfl, all, length⟩ := ih cs
      refine ⟨c :: digits, bs, rfl, List.forall_mem_cons.2 ⟨hex, all⟩, ?_⟩
      exact length.imp (congrArg Nat.succ) fun h => ⟨Nat.succ_lt_succ h.1, h.2⟩
    · exact ⟨[], cs, rfl, nofun, .inr ⟨Nat.zero_lt_succ n, other⟩⟩

/-- Behind a backslash there is an escape, or the string breaks off. -/
lemma escape_cases (cs : List Char) :
    (∃ as bs, '\\' :: cs = as ++ bs ∧ IsEscape as) ∨
      ∃ part rest cause, '\\' :: cs = part ++ rest ∧ part ≠ [] ∧ BreaksOff part rest cause := by
  rcases accepts_cases CharClass.escapeLetter.accepts cs with ⟨c, cs, rfl, letter⟩ | other
  · exact .inl ⟨_, cs, rfl, .letter letter⟩
  · by_cases unicode : 'u' ∈ cs.head?
    · obtain ⟨cs, rfl⟩ := List.head?_eq_some_iff.1 unicode
      obtain ⟨digits, bs, rfl, all, length | ⟨length, stop⟩⟩ := exists_hexDigits 4 cs
      · exact .inl ⟨_, bs, rfl, .unicode length all⟩
      · exact .inr ⟨_, bs, _, rfl, List.cons_ne_nil _ _, .unicode length all stop⟩
    · refine .inr ⟨_, cs, _, rfl, List.cons_ne_nil _ [], .letter fun c hc => ⟨other c hc, ?_⟩⟩
      rintro rfl
      exact unicode hc

/-- Four digits in all are taken. -/
lemma answers_hexDigits (definitions : ρ → Resolution ρ)
    (hd : ∀ c ∈ digits, CharClass.hexDigit.accepts c = true) (bs : List Char) {count : Nat}
    (length : count + digits.length = 4) :
    (hexCourse ρ count).Answers definitions (digits ++ bs) (.taken digits bs) := by
  induction digits generalizing count with
  | nil =>
    obtain rfl : count = 4 := length
    exact Course.answers_repeating_full rfl (Nat.le_refl 4) bs
  | cons c digits ih =>
    rw [List.forall_mem_cons] at hd
    rw [List.length_cons] at length
    have room : belowMax (some 4) count = true := decide_eq_true (by omega)
    have one : (Pattern.ofClass .hexDigit : Pattern ρ).Answers definitions (c :: (digits ++ bs))
      (.taken [c] (digits ++ bs)) := Pattern.answers_satisfy hd.1 (digits ++ bs)
    exact Course.answers_repeating_more room (List.cons_ne_nil c []) one (ih hd.2 (by omega))

/-- Fewer are refused behind the last one. -/
lemma refuses_hexDigits (definitions : ρ → Resolution ρ)
    (hd : ∀ c ∈ digits, CharClass.hexDigit.accepts c = true)
    (hb : ∀ c ∈ bs.head?, CharClass.hexDigit.accepts c = false)
    {count : Nat} (length : count + digits.length < 4) :
    (hexCourse ρ count).Answers definitions (digits ++ bs)
      (.refused { cause := .missing bs, offset := byteLength digits }) := by
  induction digits generalizing count with
  | nil =>
    have room : belowMax (some 4) count = true := decide_eq_true length
    exact Course.refuses_repeating room length (Pattern.refuses_satisfy_missing definitions hb)
  | cons c digits ih =>
    rw [List.forall_mem_cons] at hd
    rw [List.length_cons] at length
    have room : belowMax (some 4) count = true := decide_eq_true (by omega)
    have one : (Pattern.ofClass .hexDigit : Pattern ρ).Answers definitions (c :: (digits ++ bs))
      (.taken [c] (digits ++ bs)) := Pattern.answers_satisfy hd.1 (digits ++ bs)
    have more := Course.answers_repeating_more room (List.cons_ne_nil c []) one
      (ih hd.2 (by omega))
    rwa [Verdict.behind_refused] at more

/-- What may stand behind a backslash. -/
abbrev escaped (ρ : Type) : Pattern ρ :=
  .firstOf [.ofClass .escapeLetter, .concat [.char 'u', (Pattern.ofClass .hexDigit).exactly 4]]

/-- A numbered escape is told by its digits. -/
lemma answers_unicode {v : Verdict} (h : (hexCourse ρ 0).Answers definitions cs v) :
    (Pattern.concat [.char 'u', (Pattern.ofClass .hexDigit).exactly 4] : Pattern ρ).Answers
      definitions ('u' :: cs) (v.behind ['u']) :=
  (Course.answers_parts_cons (Pattern.answers_char 'u' cs)
    (Course.answers_parts_singleton h.repeated)).concat

/-- No letter escape has this letter. -/
lemma declines_letter (cs : List Char) :
    ∀ p ∈ [(Pattern.ofClass .escapeLetter : Pattern ρ)], p.Declines definitions ('u' :: cs) := by
  refine List.forall_mem_singleton.2 (Pattern.declines_satisfy ?_)
  rintro _ ⟨⟩
  rfl

/-- An escape is told by what is behind the backslash, and worded at its start. -/
lemma answers_escape_of (h : (escaped ρ).Answers definitions cs v) :
    (escape : Pattern ρ).Answers definitions ('\\' :: cs)
      ((v.mapRejection (·.labelled "invalid escape sequence")).behind ['\\']) :=
  (Course.answers_parts_cons (Pattern.answers_char '\\' cs)
    (Course.answers_parts_singleton (h.label _))).concat

/-- Escapes are taken. -/
lemma IsEscape.answers (h : IsEscape as) (definitions : ρ → Resolution ρ) (bs : List Char) :
    (escape : Pattern ρ).Answers definitions (as ++ bs) (.taken as bs) := by
  cases h with
  | @letter c letter =>
    have one : (Pattern.ofClass .escapeLetter : Pattern ρ).Answers definitions (c :: bs)
      (.taken [c] bs) := Pattern.answers_satisfy letter bs
    exact answers_escape_of (Pattern.answers_firstOf (List.forall_mem_nil _) one)
  | @unicode digits length all =>
    have digits := answers_hexDigits definitions all bs ((Nat.zero_add _).trans length)
    exact answers_escape_of (Pattern.answers_firstOf (declines_letter _) (answers_unicode digits))

/-- What breaks off in an escape is refused where it does. -/
lemma BreaksOff.answers (h : BreaksOff part bs cause) (ne : part ≠ [])
    (definitions : ρ → Resolution ρ) :
    (escape : Pattern ρ).Answers definitions (part ++ bs)
      (.refused { cause, offset := byteLength part }) := by
  cases h with
  | ended => exact absurd rfl ne
  | letter other =>
    have letter : (Pattern.ofClass .escapeLetter : Pattern ρ).Declines definitions bs :=
      Pattern.declines_satisfy fun c hc => (other c hc).1
    have unicode : (Pattern.char 'u' : Pattern ρ).Declines definitions bs :=
      Pattern.declines_char fun c hc => (other c hc).2
    have both : ∀ p ∈ [(Pattern.ofClass .escapeLetter : Pattern ρ),
        .concat [.char 'u', (Pattern.ofClass .hexDigit).exactly 4]], p.Declines definitions bs :=
      List.forall_mem_cons.2 ⟨letter, List.forall_mem_singleton.2 unicode.concat⟩
    exact answers_escape_of (Pattern.declines_firstOf both)
  | @unicode digits _ length all stop =>
    have short : 0 + digits.length < 4 := (Nat.zero_add digits.length).symm ▸ length
    have refused := answers_unicode (refuses_hexDigits definitions all stop short)
    rw [Verdict.behind_refused] at refused
    have pos : 0 < byteLength ('u' :: digits) := byteLength_cons_pos 'u' digits
    have choice := Pattern.refuses_firstOf (declines_letter _) refused pos (List.forall_mem_nil _)
    have whole := answers_escape_of choice
    rw [Verdict.mapRejection, Rejection.labelled_of_pos pos, Verdict.behind_refused] at whole
    exact whole

/-- The verdict on a text behind the opening quote of a string. -/
inductive Inside (k : CharClass) : List Char → Verdict → Prop where
  | closed (bs : List Char) : Inside k ('"' :: bs) (.taken ['"'] bs)
  | plain {c : Char} {cs : List Char} {v : Verdict} : k.accepts c = true → Inside k cs v →
    Inside k (c :: cs) (v.behind [c])
  | escaped {as cs : List Char} {v : Verdict} : IsEscape as → Inside k cs v →
    Inside k (as ++ cs) (v.behind as)
  | broken {part rest : List Char} {cause : Cause} : BreaksOff part rest cause →
    Inside k (part ++ rest) (.refused { cause, offset := byteLength part })
  /-- A character that is none of the plain ones cannot stand in the string. -/
  | raw {c : Char} (cs : List Char) : c ≠ '"' → c ≠ '\\' → k.accepts c = false →
    Inside k (c :: cs) (.refused { cause := .noAlternative })

/-- Escapes start with a backslash. -/
lemma IsEscape.exists_cons (h : IsEscape as) : ∃ bs, as = '\\' :: bs := by
  cases h with
  | letter => exact ⟨_, rfl⟩
  | unicode => exact ⟨_, rfl⟩

/-- What breaks off in a unit has started with a backslash. -/
lemma BreaksOff.eq_nil_or (h : BreaksOff part bs cause) :
    (part = [] ∧ bs = [] ∧ cause = .unterminated) ∨ ∃ as, part = '\\' :: as := by
  cases h with
  | ended => exact .inl ⟨rfl, rfl, rfl⟩
  | letter => exact .inr ⟨_, rfl⟩
  | unicode => exact .inr ⟨_, rfl⟩

/-- The inside of a string has a verdict. -/
lemma exists_inside (k : CharClass) (cs : List Char) : ∃ v, Inside k cs v := by
  -- Every unit takes something, so the text gets shorter from unit to unit.
  induction h : cs.length using Nat.strongRecOn generalizing cs with
  | ind n ih =>
  subst h
  cases cs with
  | nil => exact ⟨_, .broken .ended⟩
  | cons c cs =>
    by_cases quote : c = '"'
    · subst quote
      exact ⟨_, .closed cs⟩
    by_cases backslash : c = '\\'
    · subst backslash
      rcases escape_cases cs with ⟨as, bs, split, escape⟩ | ⟨part, rest, cause, split, _, broken⟩
      · obtain ⟨as, rfl⟩ := escape.exists_cons
        rw [split] at ih ⊢
        obtain ⟨v, hv⟩ := ih bs.length (length_lt_of_ne_nil (List.cons_ne_nil _ as) bs) bs rfl
        exact ⟨_, .escaped escape hv⟩
      · rw [split]
        exact ⟨_, .broken broken⟩
    cases hk : k.accepts c with
    | false => exact ⟨_, .raw cs quote backslash hk⟩
    | true =>
      obtain ⟨v, hv⟩ := ih cs.length (Nat.lt_succ_self _) cs rfl
      exact ⟨_, .plain hk hv⟩

/-- What can stand between the quotes, as the pattern has it. -/
abbrev unitOf (ρ : Type) (k : CharClass) : Pattern ρ :=
  .firstOf [.ofClass k, escape]

/-- Anything but a quote is refused where one is expected. -/
lemma refuses_quote (h : '"' ∉ cs.head?) : (Pattern.char '"' : Pattern ρ).Answers definitions cs
    (.refused { cause := .missing cs }) := by
  refine Pattern.refuses_satisfy_missing definitions fun c hc => beq_eq_false_iff_ne.2 ?_
  rintro rfl
  exact h hc

/-- What is not plain is declined as plain. -/
lemma declines_plain {c : Char} (h : o.plain.accepts c = false) (cs : List Char) :
    ∀ p ∈ [(Pattern.ofClass o.plain : Pattern ρ)], p.Declines definitions (c :: cs) := by
  refine List.forall_mem_singleton.2 (Pattern.declines_satisfy ?_)
  rintro _ ⟨⟩
  exact h

/-- The pattern answers as the units of the string say. -/
lemma Inside.answers (h : Inside o.plain cs v) :
    (Course.scanning (.char '"') (unitOf ρ o.plain)).Answers definitions cs v := by
  induction h with
  | closed bs => exact Course.answers_scanning_stop (Pattern.answers_char '"' bs)
  | @plain c cs v hc _ ih =>
    have quote : c ≠ '"' := CharClass.ne_of_accepts hc o.plain_quote
    have one : (Pattern.ofClass o.plain : Pattern ρ).Answers definitions (c :: cs)
      (.taken [c] cs) := Pattern.answers_satisfy hc cs
    have unit : (unitOf ρ o.plain).Answers definitions (c :: cs) (.taken [c] cs) :=
      Pattern.answers_firstOf (List.forall_mem_nil _) one
    exact Course.answers_scanning_more (Pattern.refuses_char_cons quote cs) (List.cons_ne_nil c [])
      unit ih
  | @escaped as cs v escape _ ih =>
    have answers := escape.answers definitions cs
    obtain ⟨as, rfl⟩ := escape.exists_cons
    have unit : (unitOf ρ o.plain).Answers definitions ('\\' :: as ++ cs)
        (.taken ('\\' :: as) cs) :=
      Pattern.answers_firstOf (declines_plain o.plain_backslash (as ++ cs)) answers
    exact Course.answers_scanning_more (Pattern.refuses_char_cons (by decide) (as ++ cs))
      (List.cons_ne_nil _ _) unit ih
  -- Where no unit has been started the end of the text is missing, else the unit is refused.
  | @broken part rest cause broken =>
    rcases broken.eq_nil_or with ⟨rfl, rfl, rfl⟩ | ⟨bs, rfl⟩
    · exact Course.refuses_scanning_nil (refuses_quote nofun)
    · have answers := broken.answers (List.cons_ne_nil _ bs) definitions
      have unit := Pattern.refuses_firstOf (declines_plain o.plain_backslash (bs ++ rest)) answers
        (byteLength_cons_pos _ bs) (List.forall_mem_nil _)
      exact Course.refuses_scanning (Pattern.refuses_char_cons (by decide) (bs ++ rest))
        (List.cons_ne_nil _ _) unit
  -- The character is neither plain nor a backslash, so both kinds of units decline it.
  | @raw c cs quote backslash hc =>
    have escape : (escape : Pattern ρ).Declines definitions (c :: cs) := by
      refine .concat (Pattern.declines_char ?_)
      rintro _ ⟨⟩
      exact backslash
    have both : ∀ p ∈ [Pattern.ofClass o.plain, Json.escape], p.Declines definitions (c :: cs) :=
      List.forall_mem_append.2 ⟨declines_plain hc cs, List.forall_mem_singleton.2 escape⟩
    exact Course.refuses_scanning (Pattern.refuses_char_cons quote cs) (List.cons_ne_nil c cs)
      (Pattern.declines_firstOf both)

/-- A string is told by its inside. -/
lemma answers_stringOf (h : Inside o.plain cs v) :
    (stringOf o.plain : Pattern ρ).Answers definitions ('"' :: cs)
      ((v.behind ['"']).mapRejection (·.within "string")) := by
  have scan : (Pattern.scan (.char '"') (unitOf ρ o.plain)).Answers definitions cs v :=
    h.answers.scan
  exact ((Course.answers_parts_cons (Pattern.answers_char '"' cs)
    (Course.answers_parts_singleton scan)).concat).context "string"

/-- Anything else is no string. -/
lemma refuses_stringOf (k : CharClass) (h : '"' ∉ cs.head?) :
    (stringOf k : Pattern ρ).Answers definitions cs
      (.refused { cause := .missing cs, context := some "string" }) :=
  ((Course.refuses_parts_cons (refuses_quote h) _).concat).context "string"

/-- Strings start with a quote. -/
lemma IsString.head {s : List Char} (h : IsString k s) : '"' ∈ s.head? := by
  cases h with
  | intro body => rfl

/-- Numbers do not. -/
lemma not_startsNumber_quote : ¬ StartsNumber '"' :=
  fun h => h.ne (by decide) rfl rfl

/-- A value that starts with a quote is a string. -/
lemma Generates.isString {s : List Char} (h : Generates o .value s) (hd : '"' ∈ s.head?) :
    IsString o.plain s :=
  h.derives (k := .string) (by simp [kinds]) hd rfl

/-- So no string is a number. -/
lemma IsString.not_isNumber {s : List Char} (h : IsString k s) : ¬ IsNumber s := by
  intro number
  obtain ⟨d, hd, start⟩ := number.head
  cases Option.mem_unique hd h.head
  exact not_startsNumber_quote start

/-- Strings are tokens: positions follow them from their quote. -/
lemma isToken_string (unnamed : o.literals = false) : IsToken o (IsString o.plain) (· = '"') where
  unnamed := unnamed
  inhabited := ⟨['"', '"'], .intro .nil⟩
  begins := by
    rintro _ rfl
    exact ⟨['"'], .intro .nil⟩
  head _ h := ⟨'"', h.head, rfl⟩
  isValue _ := .string
  ofValue _ _ h hd start := h.isString (start ▸ hd)

/-- Every text has a verdict by the string rule, and it is the right one. -/
lemma exists_answers_string (unnamed : o.literals = false)
    (definitions : Link → Resolution Link) (t : List Char) :
    ∃ v, (stringOf o.plain).Answers definitions t v ∧ TokenResult (IsString o.plain) t v := by
  refine (isToken_string unnamed).exists_result ?_ fun other => ?_
  · rintro _ ds rfl rfl
    exact follows_value_string
  · exact declines_string fun quote => other '"' quote rfl

/-- All but quotes and backslashes are plain. -/
lemma accepts_plain {c : Char} (quote : c ≠ '"') (backslash : c ≠ '\\') :
    CharClass.plain.accepts c = true := by
  simp [CharClass.accepts, quote, backslash]

/-- Escapes may stand anywhere in a string. -/
lemma IsEscape.isStringPart (h : IsEscape as) : IsStringPart o as := by
  cases h with
  | letter letter => exact fun cs body => .escape (mem_of_escapeLetter letter) body
  | unicode length all => exact isStringPart_unicode length all

/-- The text breaks off in a unit, and is refused there. -/
def Breaks (cs : List Char) (e : Rejection) : Prop :=
  ∃ body part rest cause, cs = body ++ (part ++ rest) ∧ IsStringBody .plain body ∧
    BreaksOff part rest cause ∧ e = { cause, offset := byteLength (body ++ part) }

/-- Behind other units, the place is counted from the first one. -/
lemma Breaks.behind (h : Breaks cs e) (part : IsStringPart {} as) :
    Breaks (as ++ cs) { e with offset := e.offset + byteLength as } := by
  obtain ⟨body, part', rest, cause, rfl, hb, broken, rfl⟩ := h
  refine ⟨as ++ body, part', rest, cause, (List.append_assoc ..).symm, part body hb, broken, ?_⟩
  rw [List.append_assoc, byteLength_append as, Nat.add_comm]

/-- If all characters but quotes and backslashes are plain, a string that is refused breaks off in
one of its units. -/
lemma Inside.breaks (h : Inside .plain cs (.refused e)) : Breaks cs e := by
  generalize hv : Verdict.refused e = v at h
  induction h generalizing e with
  | closed bs => cases hv
  | @plain c cs v hc _ ih =>
    cases v with
    | taken => cases hv
    | refused e' =>
      cases hv
      have unit : IsStringPart {} [c] := fun cs body => .plain hc body
      exact (ih rfl).behind unit
  | @escaped as cs v escape _ ih =>
    cases v with
    | taken => cases hv
    | refused e' =>
      cases hv
      exact (ih rfl).behind escape.isStringPart
  | broken broken =>
    cases hv
    exact ⟨[], _, _, _, rfl, .nil, broken, rfl⟩
  | raw cs quote backslash hc => cases hc.symm.trans (accepts_plain quote backslash)

/-- A string that is refused behind its quote breaks off in some unit. -/
lemma exists_broken_of_refused
    (h : (string : Pattern ρ).Answers definitions ('"' :: cs) (.refused e)) :
    ∃ body part rest cause, cs = body ++ (part ++ rest) ∧ IsStringBody .plain body ∧
      BreaksOff part rest cause ∧
      e = ⟨cause, byteLength ('"' :: (body ++ part)), some "string"⟩ := by
  obtain ⟨v, inside⟩ := exists_inside .plain cs
  have same := h.unique (answers_stringOf (o := {}) inside)
  cases v with
  | taken as bs => cases same
  | refused e' =>
    obtain ⟨body, part, rest, cause, rfl, hb, broken, rfl⟩ := inside.breaks
    rw [Verdict.behind_refused] at same
    exact ⟨body, part, rest, cause, rfl, hb, broken, Verdict.refused.inj same⟩

/-- Strings are taken up to the first quote that is not escaped. A text that starts with a quote and
with no string is refused where it stops to be the start of one: at its end, at what is no escape
behind a backslash, or at what is none of the four hexadecimal digits of an escape. -/
theorem parse_string (o : Options) (t : List Char) :
    (∀ c r, Entry.string.parse o t = .ok (.taken c r) ↔ t = c ++ r ∧ IsString .plain c) ∧
    (∀ c r c' r', t = c ++ r → t = c' ++ r' → IsString .plain c → IsString .plain c' → c = c') ∧
    ('"' ∈ t.head? → (¬ ∃ c r, t = c ++ r ∧ IsString .plain c) →
      ∃ e body part rest cause, Entry.string.parse o t = .ok (.refused e) ∧
        t = '"' :: (body ++ (part ++ rest)) ∧ IsStringBody .plain body ∧
        BreaksOff part rest cause ∧
        IsLongestViable (IsString .plain) t ('"' :: (body ++ part)) ∧
        e = ⟨cause, byteLength ('"' :: (body ++ part)), some "string"⟩) := by
  have token : IsToken {} (IsString .plain) (· = '"') := isToken_string rfl
  obtain ⟨v, ha, result⟩ : ∃ v, string.Answers (Matcher.scope ⟨string, .empty⟩).definitions t v ∧
    TokenResult (IsString .plain) t v := exists_answers_string (o := {}) rfl _ t
  have parsed : Entry.string.parse o t = .ok v := Entry.parse_of_answers rfl ha
  have taken {c r : List Char} (split : t = c ++ r) (string : IsString .plain c) :
      v = .taken c r := by
    subst split
    exact token.eq_taken result string fun number => absurd number string.not_isNumber
  rw [parsed]
  refine ⟨fun c r => ⟨?_, ?_⟩, fun c r c' r' split split' string string' => ?_,
    fun quote none => ?_⟩
  · rintro ⟨⟩
    exact ⟨result.1, result.2.1⟩
  · rintro ⟨split, string⟩
    exact congrArg Except.ok (taken split string)
  · cases (taken split string).symm.trans (taken split' string')
    rfl
  · cases v with
    | taken c r => exact absurd ⟨c, r, result.1, result.2.1⟩ none
    | refused e =>
      obtain ⟨cs, rfl⟩ := List.head?_eq_some_iff.1 quote
      obtain ⟨⟨pre, longest, offset⟩, _⟩ := result
      obtain ⟨body, part, rest, cause, rfl, hb, broken, rfl⟩ := exists_broken_of_refused ha
      -- Both are the part of the text that comes before the rejection.
      obtain ⟨rest', split⟩ := longest.isPrefix
      have whole : '"' :: (body ++ (part ++ rest)) = '"' :: (body ++ part) ++ rest := by
        rw [List.cons_append, List.append_assoc]
      obtain ⟨rfl, _⟩ := append_inj_of_byteLength_eq (split.trans whole) offset.symm
      exact ⟨_, body, part, rest, cause, rfl, rfl, hb, broken, longest, rfl⟩

/-- A quote among the hexadecimal digits of an escape breaks the string off. -/
theorem parse_string_cut :
    '"' ∈ ['"', '\\', 'u', '1', '"'].head? ∧
    (¬ ∃ c r, ['"', '\\', 'u', '1', '"'] = c ++ r ∧ IsString .plain c) ∧
    ∃ e body part rest cause,
      Entry.string.parse {} ['"', '\\', 'u', '1', '"'] = .ok (.refused e) ∧
      ['"', '\\', 'u', '1', '"'] = '"' :: (body ++ (part ++ rest)) ∧ IsStringBody .plain body ∧
      BreaksOff part rest cause ∧
      IsLongestViable (IsString .plain) ['"', '\\', 'u', '1', '"'] ('"' :: (body ++ part)) ∧
      e = ⟨cause, byteLength ('"' :: (body ++ part)), some "string"⟩ := by
  have none : ¬ ∃ c r, ['"', '\\', 'u', '1', '"'] = c ++ r ∧ IsString .plain c := by
    rintro ⟨c, r, split, string⟩
    have halts : (Position.value false []).Halts {} false ['"', '\\', 'u', '1'] ['"']
        (.string (.hex 2) false []) := by
      refine ⟨rfl, ?_⟩
      rintro _ ⟨⟩
      rfl
    have token : IsToken {} (IsString .plain) (· = '"') := isToken_string rfl
    have ends := token.ends_of_halts halts split string fun number =>
      absurd number string.not_isNumber
    exact (waits_string _ _).not_ends ends
  exact ⟨rfl, none, (parse_string {} ['"', '\\', 'u', '1', '"']).2.2 rfl none⟩

end Recognizer.Json
