import Mathlib.Tactic.SplitIfs
import Recognizer.Proofs.Json.Language
import Recognizer.Text.Utf8

/-!
# Positions in JSON texts

A position is what is known about the rest of a text when a leading part has been read: the kind of
place and the brackets that are open. `Position.step` reads one character; where it fails, no text
goes on like this.
-/

namespace Recognizer

namespace CharClass

variable {k : CharClass} {c d : Char}

/-- A character of the class is none of those outside it. -/
lemma ne_of_accepts (hc : k.accepts c = true) (hd : k.accepts d = false) : c ≠ d := by
  rintro rfl
  cases hc.symm.trans hd

/-- Digits other than zero are digits. -/
lemma digit_of_nonzeroDigit (h : nonzeroDigit.accepts c = true) : digit.accepts c = true := by
  simp only [accepts, Bool.and_eq_true, decide_eq_true_eq] at h ⊢
  exact ⟨Char.le_trans (by decide) h.1, h.2⟩

/-- And they are all other digits. -/
lemma nonzeroDigit_of_digit (h : digit.accepts c = true) (ne : c ≠ '0') :
    nonzeroDigit.accepts c = true := by
  have val : c.toNat ≠ '0'.toNat := fun e => ne (Char.toNat_inj.1 e)
  simp only [accepts, Bool.and_eq_true, decide_eq_true_eq] at h ⊢
  exact ⟨Nat.lt_of_le_of_ne h.1 val.symm, h.2⟩

/-- No digit is whitespace. -/
lemma whitespace_eq_false_of_digit (h : digit.accepts c = true) : whitespace.accepts c = false := by
  rw [← Bool.not_eq_true]
  intro hw
  simp only [accepts, Bool.or_eq_true, beq_iff_eq] at hw
  rcases hw with ((rfl | rfl) | rfl) | rfl <;> cases h

end CharClass

namespace Json

/-- Places in a string. -/
inductive StringPlace where
  | body
  /-- Behind a backslash. -/
  | escaped
  /-- Before a hexadecimal digit that `more` others follow. -/
  | hex (more : Nat)

/-- Places in a number, named for what stands before them. -/
inductive NumberPlace where
  | minus
  | zero
  | integer
  | point
  | fraction
  | mark
  | sign
  | exponent

namespace NumberPlace

/-- Can a number end here? -/
def isFinal : NumberPlace → Bool
  | zero | integer | fraction | exponent => true
  | minus | point | mark | sign => false

/-- The place behind the first character of an integer. -/
def first (c : Char) : Option NumberPlace :=
  if c = '0' then some zero
  else if CharClass.nonzeroDigit.accepts c then some integer
  else none

/-- The place behind a character that goes on with the number. -/
def next : NumberPlace → Char → Option NumberPlace
  | minus, c => first c
  | zero, c => if c = '.' then some point else if c = 'e' ∨ c = 'E' then some mark else none
  | integer, c =>
    if CharClass.digit.accepts c then some integer
    else if c = '.' then some point
    else if c = 'e' ∨ c = 'E' then some mark
    else none
  | point, c => if CharClass.digit.accepts c then some fraction else none
  | fraction, c =>
    if CharClass.digit.accepts c then some fraction
    else if c = 'e' ∨ c = 'E' then some mark
    else none
  | mark, c =>
    if c = '+' ∨ c = '-' then some sign
    else if CharClass.digit.accepts c then some exponent
    else none
  | sign, c | exponent, c => if CharClass.digit.accepts c then some exponent else none

/-- An integer starts with a digit. -/
lemma digit_of_first {c : Char} {place : NumberPlace} (h : first c = some place) :
    CharClass.digit.accepts c = true := by
  rw [first] at h
  split at h
  · next e => rw [e]; rfl
  · split at h
    · next hd => exact CharClass.digit_of_nonzeroDigit hd
    · cases h

end NumberPlace

/-- A place in a text, inside of the brackets `σ`, the innermost first. -/
inductive Position where
  /-- Before a list in these brackets. -/
  | opening (b : Bracket)
  /-- Before a value. Behind an opening bracket that is `fresh` the list may end. -/
  | value (fresh : Bool) (σ : List Bracket)
  /-- Before the key of a member, in an object inside of `σ`. -/
  | key (fresh : Bool) (σ : List Bracket)
  /-- Behind the key of a member, in an object inside of `σ`. -/
  | colon (σ : List Bracket)
  /-- Behind a value. -/
  | after (σ : List Bracket)
  | string (place : StringPlace) (isKey : Bool) (σ : List Bracket)
  | number (place : NumberPlace) (σ : List Bracket)
  /-- In a literal, of which `seen` has been read. -/
  | literal (seen : List Char) (next : Char) (rest : List Char) (σ : List Bracket)

namespace Position

/-- The place of an item in a list. -/
def inside (fresh : Bool) (b : Bracket) (σ : List Bracket) : Position :=
  match b with
  | .square => .value fresh (.square :: σ)
  | .curly => .key fresh σ

/-- The place behind a string. -/
def behindString (isKey : Bool) (σ : List Bracket) : Position :=
  if isKey then .colon σ else .after σ

/-- The place behind the first character of a literal. -/
def startLiteral (o : Options) (c : Char) (σ : List Bracket) : Option Position :=
  if o.literals then
    if c = 't' then some (.literal ['t'] 'r' ['u', 'e'] σ)
    else if c = 'f' then some (.literal ['f'] 'a' ['l', 's', 'e'] σ)
    else if c = 'n' then some (.literal ['n'] 'u' ['l', 'l'] σ)
    else none
  else none

/-- May there be whitespace around a value? -/
def allowsBlank (padded : Bool) : List Bracket → Bool
  | [] => padded
  | _ :: _ => true

/-- Read a character behind a value. -/
def stepBehind (padded : Bool) (σ : List Bracket) (c : Char) : Option Position :=
  if CharClass.whitespace.accepts c then if allowsBlank padded σ then some (.after σ) else none
  else
    match σ with
    | [] => none
    | b :: σ =>
      if c = ',' then some (inside false b σ)
      else if c = b.closing then some (.after σ)
      else none

/-- Read the first character of a value. -/
def startValue (o : Options) (σ : List Bracket) (c : Char) : Option Position :=
  if c = '"' then some (.string .body false σ)
  else if c = '-' then some (.number .minus σ)
  else if c = '[' then some (inside true .square σ)
  else if c = '\x7b' then some (inside true .curly σ)
  else
    match NumberPlace.first c with
    | some place => some (.number place σ)
    | none => startLiteral o c σ

/-- Read a character in a string. -/
def stepString (o : Options) (place : StringPlace) (isKey : Bool) (σ : List Bracket) (c : Char) :
    Option Position :=
  match place with
  | .body =>
    if c = '"' then some (behindString isKey σ)
    else if c = '\\' then some (.string .escaped isKey σ)
    else if o.plain.accepts c then some (.string .body isKey σ)
    else none
  | .escaped =>
    if CharClass.escapeLetter.accepts c then some (.string .body isKey σ)
    else if c = 'u' then some (.string (.hex 3) isKey σ)
    else none
  | .hex more =>
    if CharClass.hexDigit.accepts c then
      match more with
      | 0 => some (.string .body isKey σ)
      | more + 1 => some (.string (.hex more) isKey σ)
    else none

/-- Read a character. At the outermost level there may be whitespace if the text is `padded`. -/
def step (o : Options) (padded : Bool) : Position → Char → Option Position
  | opening b, c => if c = b.opening then some (inside true b []) else none
  | value fresh σ, c =>
    if CharClass.whitespace.accepts c then
      if allowsBlank padded σ then some (.value fresh σ) else none
    else if fresh ∧ c = ']' then some (.after σ.tail)
    else startValue o σ c
  | key fresh σ, c =>
    if CharClass.whitespace.accepts c then some (.key fresh σ)
    else if c = '"' then some (.string .body true σ)
    else if fresh ∧ c = '\x7d' then some (.after σ)
    else none
  | colon σ, c =>
    if CharClass.whitespace.accepts c then some (.colon σ)
    else if c = ':' then some (.value false (.curly :: σ))
    else none
  | after σ, c => stepBehind padded σ c
  | string place isKey σ, c => stepString o place isKey σ c
  | number place σ, c =>
    match place.next c with
    | some place => some (.number place σ)
    | none => if place.isFinal then stepBehind padded σ c else none
  | literal seen next rest σ, c =>
    if c = next then
      match rest with
      | [] => some (.after σ)
      | next' :: rest => some (.literal (seen ++ [c]) next' rest σ)
    else none

/-- Read a text, character by character. -/
def read (o : Options) (padded : Bool) : Position → List Char → Option Position
  | q, [] => some q
  | q, c :: cs => (step o padded q c).bind fun q => read o padded q cs

/-- The part of a literal that has been read and belongs to no whole token. -/
def backlog : Position → List Char
  | literal seen _ _ _ => seen
  | _ => []

/-- The position is behind a value inside of `σ`. -/
def Ends (σ : List Bracket) (q : Position) : Prop :=
  q = .after σ ∨ ∃ place : NumberPlace, place.isFinal = true ∧ q = .number place σ

/-- The position is behind a value inside of `σ`, and `cs` does not go on with it. -/
def Settled (σ : List Bracket) (q : Position) (cs : List Char) : Prop :=
  q = .after σ ∨ ∃ place : NumberPlace, place.isFinal = true ∧ q = .number place σ ∧
    ∀ c ∈ cs.head?, place.next c = none

/-- Something has to come next, and nothing of it has been read. -/
structure Waits (q : Position) : Prop where
  backlog : q.backlog = []
  not_ends : ¬ q.Ends []

variable {o : Options} {padded fresh : Bool} {b : Bracket} {σ σ' : List Bracket} {q q' : Position}
  {c : Char} {as bs cs : List Char}

/-- A position waits if nothing can end there. -/
lemma waits_of_ne (backlog : q.backlog = []) (after : q ≠ .after [])
    (number : ∀ place : NumberPlace, place.isFinal = true → q ≠ .number place []) : q.Waits := by
  refine ⟨backlog, ?_⟩
  rintro (h | ⟨place, final, h⟩)
  · exact after h
  · exact number place final h

/-- Before a list something must come. -/
lemma waits_opening (b : Bracket) : (opening b).Waits :=
  waits_of_ne rfl nofun nofun

/-- So it must before a value. -/
lemma waits_value : (value fresh σ).Waits :=
  waits_of_ne rfl nofun nofun

/-- And before an item. -/
lemma waits_inside : (inside fresh b σ).Waits := by
  cases b with
  | square => exact waits_value
  | curly => exact waits_of_ne rfl nofun nofun

/-- Behind a key comes a colon. -/
lemma waits_colon : (colon σ).Waits :=
  waits_of_ne rfl nofun nofun

/-- A string must be closed. -/
lemma waits_string (place : StringPlace) (isKey : Bool) : (string place isKey σ).Waits :=
  waits_of_ne rfl nofun nofun

/-- A number must go on where it cannot end. -/
lemma waits_number {place : NumberPlace} (h : place.isFinal = false) :
    (number place σ).Waits := by
  refine waits_of_ne rfl nofun ?_
  rintro place' final ⟨⟩
  cases h.symm.trans final

/-- Within a bracket something must come. -/
lemma Ends.waits (h : q.Ends (b :: σ)) : q.Waits := by
  rcases h with rfl | ⟨place, _, rfl⟩
  · exact waits_of_ne rfl nofun nofun
  · exact waits_of_ne rfl nofun nofun

/-- Reading goes on behind its first character. -/
lemma read_cons (h : step o padded q c = some q') (cs : List Char) :
    read o padded q (c :: cs) = read o padded q' cs := by
  rw [read, h, Option.bind_some]

/-- Reading one character is a step. -/
lemma read_singleton : read o padded q [c] = step o padded q c :=
  Option.bind_fun_some _

/-- A text can be read part by part. -/
lemma read_append (as bs : List Char) :
    read o padded q (as ++ bs) = (read o padded q as).bind fun q' => read o padded q' bs := by
  induction as generalizing q with
  | nil => rfl
  | cons c as ih =>
    rw [List.cons_append, read, read, Option.bind_assoc]
    exact congrArg _ (funext fun q' => ih)

/-- What has been read need not be read again. -/
lemma read_append_of_read (h : read o padded q as = some q') (bs : List Char) :
    read o padded q (as ++ bs) = read o padded q' bs := by
  rw [read_append, h, Option.bind_some]

/-- Reading characters that change nothing. -/
lemma read_of_forall_step (h : ∀ c ∈ as, step o padded q c = some q) :
    read o padded q as = some q := by
  induction as with
  | nil => rfl
  | cons c as ih =>
    rw [List.forall_mem_cons] at h
    rw [read_cons h.1, ih h.2]

/-- Where a text can be read, its leading parts can. -/
lemma exists_read_of_append (h : read o padded q (as ++ bs) = some q') :
    ∃ q₁, read o padded q as = some q₁ ∧ read o padded q₁ bs = some q' := by
  rw [read_append] at h
  exact Option.bind_eq_some_iff.1 h

/-- `as` can be read from `q`, up to `q'`, and no character of `bs` behind it. -/
structure Halts (o : Options) (padded : Bool) (q : Position) (as bs : List Char) (q' : Position) :
    Prop where
  read : read o padded q as = some q'
  stuck : ∀ c ∈ bs.head?, step o padded q' c = none

/-- Where reading halts, no more of the text can be read. -/
lemma Halts.eq_nil {mid : List Char} {q'' : Position} (h : Halts o padded q as (mid ++ bs) q')
    (hr : Position.read o padded q (as ++ mid) = some q'') : mid = [] := by
  cases mid with
  | nil => rfl
  | cons c mid =>
    rw [read_append_of_read h.read, Position.read, h.stuck c rfl] at hr
    cases hr

/-- Where the whole text can be read, reading halts at its end. -/
lemma Halts.rest_eq_nil {q'' : Position} (h : Halts o padded q as bs q')
    (hr : Position.read o padded q (as ++ bs) = some q'') : bs = [] := by
  rw [← List.append_nil bs] at h
  exact h.eq_nil hr

/-- A text can be read up to one place only. -/
lemma Halts.unique {as' bs' : List Char} {q'' : Position} (h : Halts o padded q as bs q')
    (h' : Halts o padded q as' bs' q'') (e : as ++ bs = as' ++ bs') :
    as = as' ∧ bs = bs' ∧ q' = q'' := by
  -- If one text went further than the other, the other would not have been stuck.
  have same : as = as' ∧ bs = bs' := by
    rcases List.append_eq_append_iff.1 e with ⟨mid, rfl, rfl⟩ | ⟨mid, rfl, rfl⟩
    · rw [h.eq_nil h'.read]
      exact ⟨(List.append_nil as).symm, rfl⟩
    · rw [h'.eq_nil h.read]
      exact ⟨List.append_nil as', rfl⟩
  obtain ⟨rfl, rfl⟩ := same
  exact ⟨rfl, rfl, Option.some.inj (h.read.symm.trans h'.read)⟩

/-- A value that starts with a digit is a number. -/
lemma startValue_of_first {place : NumberPlace} (h : NumberPlace.first c = some place) :
    startValue o σ c = some (.number place σ) := by
  have digit := NumberPlace.digit_of_first h
  have ne {d : Char} (hd : CharClass.digit.accepts d = false) : c ≠ d :=
    CharClass.ne_of_accepts digit hd
  rw [startValue, if_neg (ne rfl), if_neg (ne rfl), if_neg (ne rfl), if_neg (ne rfl), h]

/-- No value starts with whitespace. -/
lemma startValue_of_whitespace (h : CharClass.whitespace.accepts c = true) :
    startValue o σ c = none := by
  have ne {d : Char} (hd : CharClass.whitespace.accepts d = false) : c ≠ d :=
    CharClass.ne_of_accepts h hd
  have first : NumberPlace.first c = none := by
    rw [Option.eq_none_iff_forall_ne_some]
    intro place hp
    cases h.symm.trans (CharClass.whitespace_eq_false_of_digit (NumberPlace.digit_of_first hp))
  rw [startValue, if_neg (ne rfl), if_neg (ne rfl), if_neg (ne rfl), if_neg (ne rfl), first]
  rw [startLiteral, if_neg (ne rfl), if_neg (ne rfl), if_neg (ne rfl), ite_self]

/-- Whitespace before a value is skipped, where it is allowed. -/
lemma step_value_blank (hc : CharClass.whitespace.accepts c = true)
    (allowed : allowsBlank padded σ = true) :
    step o padded (.value fresh σ) c = some (.value fresh σ) := by
  rw [step, if_pos hc, if_pos allowed]

/-- Any other character starts the value, or closes a fresh array. -/
lemma step_value (hc : CharClass.whitespace.accepts c = true → allowsBlank padded σ = false)
    (ne : fresh = true → c ≠ ']') : step o padded (.value fresh σ) c = startValue o σ c := by
  rw [step]
  split
  · next h => rw [if_neg (by rw [hc h]; exact Bool.false_ne_true), startValue_of_whitespace h]
  · rw [if_neg fun h => ne h.1 h.2]

/-- Whitespace before an item is skipped. -/
lemma step_inside_blank (b : Bracket) (hc : CharClass.whitespace.accepts c = true) :
    step o padded (inside fresh b σ) c = some (inside fresh b σ) := by
  cases b with
  | square => exact step_value_blank hc rfl
  | curly => rw [inside, step, if_pos hc]

/-- So is any number of it. -/
lemma read_inside_blank (b : Bracket) {w : List Char} (hw : IsBlank w) :
    read o padded (inside fresh b σ) w = some (inside fresh b σ) :=
  read_of_forall_step fun c hc => step_inside_blank b (hw c hc)

/-- A list that has just been opened may be closed. -/
lemma step_inside_closing (b : Bracket) :
    step o padded (inside true b σ) b.closing = some (.after σ) := by
  cases b with
  | square => rfl
  | curly => rfl

/-- A value may open a list. -/
lemma step_value_opening (b : Bracket) :
    step o padded (.value fresh σ) b.opening = some (inside true b σ) := by
  cases b with
  | square => rw [step, if_neg (by decide), if_neg (by rintro ⟨_, h⟩; cases h)]; rfl
  | curly => rw [step, if_neg (by decide), if_neg (by rintro ⟨_, h⟩; cases h)]; rfl

section Strings

variable {isKey : Bool} {more : Nat}

/-- One hexadecimal digit more is read. -/
lemma step_hex (hc : CharClass.hexDigit.accepts c = true) :
    step o padded (.string (.hex (more + 1)) isKey σ) c = some (.string (.hex more) isKey σ) := by
  rw [step, stepString, if_pos hc]

/-- The last one ends the escape. -/
lemma step_hex_last (hc : CharClass.hexDigit.accepts c = true) :
    step o padded (.string (.hex 0) isKey σ) c = some (.string .body isKey σ) := by
  rw [step, stepString, if_pos hc]

/-- Anything else breaks it off. -/
lemma step_hex_eq_none (hc : CharClass.hexDigit.accepts c = false) :
    step o padded (.string (.hex more) isKey σ) c = none := by
  rw [step, stepString.eq_def]
  exact if_neg (Bool.eq_false_iff.1 hc)

/-- A letter behind a backslash ends the escape. -/
lemma step_escaped (hc : CharClass.escapeLetter.accepts c = true) :
    step o padded (.string .escaped isKey σ) c = some (.string .body isKey σ) := by
  rw [step, stepString, if_pos hc]

/-- Plain characters stay in the string. -/
lemma step_plain (hc : o.plain.accepts c = true) :
    step o padded (.string .body isKey σ) c = some (.string .body isKey σ) := by
  have ne {d : Char} (hd : o.plain.accepts d = false) : c ≠ d := CharClass.ne_of_accepts hc hd
  rw [step, stepString, if_neg (ne o.plain_quote), if_neg (ne o.plain_backslash), if_pos hc]

end Strings

variable {seen rest : List Char} {next : Char}

/-- Only words of literals are started. -/
lemma startLiteral_eq_some (h : startLiteral o c σ = some q) : o.literals = true ∧
    ∃ next rest, q = .literal [c] next rest σ ∧ c :: next :: rest ∈ literalWords := by
  rw [startLiteral] at h
  split_ifs at h with enabled ht hf hn
  all_goals
    cases h
    subst c
    exact ⟨enabled, _, _, rfl, by decide⟩

/-- A value that starts a literal is one. -/
lemma literal_of_startValue (h : startValue o σ c = some (.literal seen next rest σ')) :
    startLiteral o c σ = some (.literal seen next rest σ') := by
  rw [startValue.eq_def] at h
  split_ifs at h
  · cases h
  · cases h
  · cases h
  · cases h
  · split at h
    · cases h
    · exact h

/-- Nothing behind a value starts a literal. -/
lemma ne_literal_of_stepBehind : stepBehind padded σ c ≠ some (.literal seen next rest σ') := by
  cases σ with
  | nil =>
    rw [stepBehind]
    split_ifs <;> exact fun h => by cases h
  | cons b σ =>
    rw [stepBehind]
    cases b <;> split_ifs <;> exact fun h => by cases h

/-- Nor does anything in a string. -/
lemma ne_literal_of_stepString {place : StringPlace} {isKey : Bool} :
    stepString o place isKey σ c ≠ some (.literal seen next rest σ') := by
  cases place with
  | body =>
    rw [stepString]
    cases isKey <;> split_ifs <;> exact fun h => by cases h
  | escaped =>
    rw [stepString]
    split_ifs <;> exact fun h => by cases h
  | hex more =>
    cases more <;> rw [stepString] <;> split_ifs <;> exact fun h => by cases h

/-- A step into a literal starts it at the place of a value or goes on with it. -/
lemma step_literal (h : step o padded q c = some (.literal seen next rest σ)) :
    (∃ fresh, q = .value fresh σ ∧ seen = [c] ∧ o.literals = true ∧
      c :: next :: rest ∈ literalWords) ∨
    ∃ seen', q = .literal seen' c (next :: rest) σ ∧ seen = seen' ++ [c] := by
  cases q with
  | value fresh σ' =>
    rw [step] at h
    split_ifs at h
    · cases h
    · cases h
    · obtain ⟨enabled, _, _, e, word⟩ := startLiteral_eq_some (literal_of_startValue h)
      cases e
      exact .inl ⟨fresh, rfl, rfl, enabled, word⟩
  | literal seen' next' rest' σ' =>
    rw [step.eq_def] at h
    simp only at h
    split_ifs at h with e
    cases rest' with
    | nil => cases h
    | cons _ _ =>
      cases h
      exact .inr ⟨seen', by rw [e], rfl⟩
  -- From all other places no step leads into a literal.
  | opening b =>
    rw [step] at h
    cases b <;> split_ifs at h <;> cases h
  | key fresh σ' =>
    rw [step] at h
    split_ifs at h <;> cases h
  | colon σ' =>
    rw [step] at h
    split_ifs at h <;> cases h
  | after σ' => exact absurd h ne_literal_of_stepBehind
  | string place isKey σ' => exact absurd h ne_literal_of_stepString
  | number place σ' =>
    rw [step.eq_def] at h
    simp only at h
    split at h
    · cases h
    · split_ifs at h
      exact absurd h ne_literal_of_stepBehind

/-- Where a value has ended, the next character is read as behind it. -/
lemma Settled.step (h : q.Settled σ cs) (hc : c ∈ cs.head?) :
    step o padded q c = stepBehind padded σ c := by
  obtain rfl | ⟨place, final, rfl, next⟩ := h
  · rfl
  · rw [Position.step, next c hc, final]
    rfl

/-- Whitespace is skipped behind a value, where it is allowed. -/
lemma stepBehind_blank (hc : CharClass.whitespace.accepts c = true)
    (allowed : allowsBlank padded σ = true) : stepBehind padded σ c = some (.after σ) := by
  unfold stepBehind
  rw [if_pos hc, if_pos allowed]

/-- A comma calls for the next item. -/
lemma stepBehind_comma (b : Bracket) : stepBehind padded (b :: σ) ',' = some (inside false b σ) :=
  rfl

/-- The bracket that was opened last may be closed. -/
lemma stepBehind_closing (b : Bracket) :
    stepBehind padded (b :: σ) b.closing = some (.after σ) := by
  cases b with
  | square => rfl
  | curly => rfl

end Position

end Json

end Recognizer
