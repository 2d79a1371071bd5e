import Recognizer.Proofs.Pattern.Cuts
import Recognizer.Proofs.Pattern.Loops

/-!
# The causes of rejections

`Pattern.Blames` tells from the shape of a pattern which causes its rejections can have. A label
replaces the causes that arise at the very start of its input, so these are told apart from those
that arise later. A loop never ends on an empty match if its body always consumes something, and
what regular patterns leave is never foreign; the rest is an induction on where a rejection comes
from (`Pattern.Origin.blames`).
-/

namespace Recognizer

open Text

variable {ρ : Type} {definitions : ρ → Resolution ρ} {input rest : Slice}

/-- A fault of patterns and not of texts. -/
def Cause.Internal : Cause → Prop
  | notABoundary | foreignRemainder | noProgress | tooFewRepetitions _ _ | tooFewElements _ _
  | undefinedRule _ | grammarDropped => True
  | noInput | mismatch | expected _ | notEnoughInput | trailingInput | noAlternative | unterminated
  | stated _ => False

/-- Texts are different if one starts otherwise than the other. -/
lemma append_ne_of_take_ne {a b c : String}
    (h : c.toList.take a.toList.length ≠ a.toList) : a ++ b ≠ c := by
  rintro rfl
  exact h (by rw [String.toList_append, List.take_left])

/-- The wording of a foreign remainder is that of no other cause, but a label may use it. -/
lemma Cause.eq_of_message_eq {c : Cause}
    (h : c.message = "remainder is not a suffix of the input") :
    c = .foreignRemainder ∨ c = .stated c.message := by
  cases c with
  | foreignRemainder => exact .inl rfl
  | stated message => exact .inr rfl
  -- A wording that starts otherwise is another wording.
  | expected text =>
    change "expected `" ++ text ++ "`" = _ at h
    rw [String.append_assoc] at h
    exact absurd h (append_ne_of_take_ne (by decide +kernel))
  | tooFewRepetitions min found =>
    change "expected at least " ++ toString min ++ " repetitions, found " ++ toString found = _ at h
    rw [String.append_assoc, String.append_assoc] at h
    exact absurd h (append_ne_of_take_ne (by decide +kernel))
  | tooFewElements min found =>
    change "expected at least " ++ toString min ++ " elements, found " ++ toString found = _ at h
    rw [String.append_assoc, String.append_assoc] at h
    exact absurd h (append_ne_of_take_ne (by decide +kernel))
  | undefinedRule name =>
    change "rule `" ++ name ++ "` is not defined" = _ at h
    rw [String.append_assoc] at h
    exact absurd h (append_ne_of_take_ne (by decide +kernel))
  | _ => exact absurd h (by decide +kernel)

/-- Each match consumes at least one character. -/
inductive Pattern.Consumes : Pattern ρ → Prop where
  | satisfy (accepts : Char → Bool) : Consumes (.satisfy accepts)
  | concat {p : Pattern ρ} (ps : List (Pattern ρ)) : Consumes p → Consumes (.concat (p :: ps))
  | firstOf {choices : List (Pattern ρ)} :
    (∀ p ∈ choices, Consumes p) → Consumes (.firstOf choices)

/-- A character that is matched is gone from the input. -/
lemma Outcome.size_lt_of_ofChar {accepts : Char → Bool} {consumed remainder : Slice}
    (h : ofChar accepts input = .matched consumed remainder) : remainder.size < input.size := by
  rw [ofChar] at h
  split at h
  · cases h
  · next c _ =>
    have pos := c.utf8Size_pos
    split at h
    · rw [split] at h
      split at h
      · next hs =>
        cases h
        obtain ⟨le, _, _, _, _, size⟩ := Slice.splitAt?_eq_some_iff.1 hs
        omega
      · cases h
    · cases h

/-- The match of a choice is that of one of its patterns. -/
lemma Plan.exists_of_ofChoices {choices : List (Pattern ρ)} {best : Option Rejection}
    {consumed remainder : Slice} (h : (ofChoices input choices best).Reaches
      (Goal.Yields definitions) (.matched consumed remainder)) :
    ∃ p ∈ choices, (Goal.apply p input).Yields definitions (.matched consumed remainder) := by
  induction choices generalizing best with
  | nil =>
    obtain ⟨e, he, _⟩ := Outcome.exists_ofFurthest best
    cases he.symm.trans h
  | cons p ps ih =>
    obtain ⟨o, yields, h⟩ := h
    cases o with
    | matched consumed' remainder' =>
      cases h
      exact ⟨p, List.mem_cons_self, yields⟩
    | rejected e =>
      obtain ⟨q, hq, yields⟩ := ih h
      exact ⟨q, List.mem_cons_of_mem _ hq, yields⟩

section Consuming

variable (hd : ∀ rule p, definitions rule = .defined p → p.Regular)

include hd

/-- What a sequence leaves is never more than there was. -/
lemma Plan.size_le_of_ofParts {parts : List (Pattern ρ)} (hp : ∀ p ∈ parts, p.Regular)
    {consumed remainder : Slice} (h : (ofParts input parts rest).Reaches
      (Goal.Yields definitions) (.matched consumed remainder)) : remainder.size ≤ rest.size := by
  induction parts generalizing rest with
  | nil =>
    exact Nat.le_of_eq (congrArg Slice.size (Outcome.eq_of_fromRemainder h))
  | cons p ps ih =>
    rw [List.forall_mem_cons] at hp
    obtain ⟨hp, hps⟩ := hp
    obtain ⟨o, yields, h⟩ := h
    cases o with
    | rejected e => cases h
    | matched consumed' remainder' =>
      obtain ⟨_, _, size⟩ := (hp.cuts hd yields).hasTail.endsWith
      exact Nat.le_trans (ih hps h) size

/-- A pattern that consumes leaves less than there was. -/
lemma Pattern.Consumes.size_lt {p : Pattern ρ} (hp : p.Consumes) (regular : p.Regular)
    {consumed remainder : Slice}
    (h : (Goal.apply p input).Yields definitions (.matched consumed remainder)) :
    remainder.size < input.size := by
  induction hp generalizing consumed remainder with
  | satisfy accepts => exact Outcome.size_lt_of_ofChar (Goal.yields_iff.1 h)
  | concat ps _ ih =>
    cases regular with
    | concat regular =>
      rw [List.forall_mem_cons] at regular
      obtain ⟨o, yields, h⟩ := Goal.yields_iff.1 h
      cases o with
      | rejected e => cases h
      | matched consumed' remainder' =>
        have lt := ih regular.1 yields
        have le := Plan.size_le_of_ofParts hd regular.2 h
        exact Nat.lt_of_le_of_lt le lt
  | firstOf _ ih =>
    cases regular with
    | firstOf regular =>
      obtain ⟨q, hq, yields⟩ := Plan.exists_of_ofChoices (Goal.yields_iff.1 h)
      exact ih q hq (regular q hq) yields

/-- So it never matches nothing. -/
lemma Pattern.Consumes.not_stalls {p : Pattern ρ} (hp : p.Consumes) (regular : p.Regular) :
    ¬ p.Stalls definitions input := by
  rintro ⟨consumed, remainder, h, nothing⟩
  have lt := hp.size_lt hd regular h
  obtain ⟨_, _, _, _, _, size⟩ := Slice.splitAt?_eq_some_iff.1 (regular.cuts hd h)
  rw [Slice.isEmpty, beq_iff_eq] at nothing
  omega

end Consuming

/-- The cause of a rejection is among those named, at the very start only if `start` says so. -/
def Outcome.Blames (named : Cause → Prop) (start : Bool) : Outcome → Prop
  | .matched _ _ => True
  | .rejected e => start = true ∨ 0 < e.offset → named e.cause

/-- All causes of rejections are among `named`, those at the very start only if `start` says so.
References are to `good` rules only. -/
inductive Pattern.Blames (good : ρ → Prop) (named : Cause → Prop) : Bool → Pattern ρ → Prop where
  | satisfy (start : Bool) (accepts : Char → Bool) :
    named .noInput → named .mismatch → Blames good named start (.satisfy accepts)
  | literal (text : String) : Blames good named false (.literal text)
  | endOfInput (start : Bool) : named .trailingInput → Blames good named start .endOfInput
  | concat (start : Bool) {parts : List (Pattern ρ)} :
    (∀ p ∈ parts, Blames good named true p) → Blames good named start (.concat parts)
  | firstOf (start : Bool) {choices : List (Pattern ρ)} : named .noAlternative →
    (∀ p ∈ choices, Blames good named false p) → Blames good named start (.firstOf choices)
  | optional (start : Bool) (body : Pattern ρ) : Blames good named start (.optional body)
  | implies (start : Bool) (condition : Pattern ρ) {consequence : Pattern ρ} :
    Blames good named true consequence → Blames good named start (.implies condition consequence)
  /-- No more repetitions are called for than there may be. -/
  | repeated (start : Bool) {body : Pattern ρ} {min : Nat} {max : Option Nat} :
    (∀ m ∈ max, min ≤ m) → body.Consumes → Blames good named true body →
    Blames good named start (.repeated body min max)
  | scan (start : Bool) (stop : Pattern ρ) {body : Pattern ρ} : named .unterminated →
    body.Consumes → Blames good named true body → Blames good named start (.scan stop body)
  /-- One element is enough. -/
  | series (start : Bool) {element : Pattern ρ} (separator : Pattern ρ) {config : Series.Config} :
    config.min ≤ 1 → Blames good named true element →
    Blames good named start (.series element separator config)
  | label (start : Bool) {body : Pattern ρ} {message : String} : named (.stated message) →
    Blames good named false body → Blames good named start (.label body message)
  | context {start : Bool} {body : Pattern ρ} (name : String) :
    Blames good named start body → Blames good named start (.context body name)
  | refer (start : Bool) {rule : ρ} : good rule → Blames good named start (.refer rule)

section Runs

variable {good : ρ → Prop} {named : Cause → Prop} {start : Bool} {p q : Pattern ρ} {cause : Cause}

/-- What is handed on has a cause that is named, be it at the very start of the part. -/
lemma Pattern.HandsOn.blames (h : p.HandsOn q) (hp : p.Blames good named start) :
    q.Blames good named true := by
  cases h with
  | concat mem =>
    cases hp with
    | concat _ hp => exact hp _ mem
  | implies =>
    cases hp with
    | implies _ _ hq => exact hq
  | repeated =>
    cases hp with
    | repeated _ _ _ hb => exact hb
  | scan =>
    cases hp with
    | scan _ _ _ _ hb => exact hb
  | series =>
    cases hp with
    | series _ _ _ he => exact he

/-- A character of a text can be cut off. -/
lemma Slice.Spells.isSome_splitAt? {t : List Char} (hs : input.Spells t) {c : Char}
    (first : input.first? = some c) : (input.splitAt? c.utf8Size).isSome := by
  rw [hs.first?_eq, List.head?_eq_some_iff] at first
  obtain ⟨cs, rfl⟩ := first
  have split : input.Spells ([c] ++ cs) := hs
  obtain ⟨taken, rest, cut, _, _⟩ := split.splitAt?_eq
  have size : byteLength [c] = c.utf8Size := by simp
  rw [← size, cut]
  rfl

variable (hd : ∀ rule p, definitions rule = .defined p → p.Regular)

include hd

/-- A pattern that consumes does not give up but for a cause that it names. -/
lemma Pattern.GivesUp.blames (h : p.GivesUp definitions rest cause) (regular : p.Regular)
    (hp : p.Blames good named start) : named cause := by
  cases h with
  | @repeated _ min count max few ended =>
    cases regular with
    | repeated _ _ regular =>
      cases hp with
      | repeated _ enough consumes _ =>
        obtain full | stalls := ended
        -- A repetition that is full has as many matches as are called for.
        · cases max with
          | none => cases full
          | some m =>
            have count_le : m ≤ count := by simpa [belowMax] using full
            have min_le : min ≤ m := enough m rfl
            omega
        · exact absurd stalls (consumes.not_stalls hd regular)
  | unterminated =>
    cases hp with
    | scan _ _ unterminated _ _ => exact unterminated
  | noProgress _ stalls =>
    cases regular with
    | scan _ regular =>
      cases hp with
      | scan _ _ _ consumes _ => exact absurd stalls (consumes.not_stalls hd regular)
  | series some few =>
    cases hp with
    | series _ _ enough _ => omega

variable (hg : ∀ rule, good rule → ∃ p, definitions rule = .defined p ∧ p.Blames good named true)

include hg

omit hd in
/-- What refuses a text at the very start does so for a cause that it names there. -/
lemma Pattern.Refuses.blames {t : List Char} (h : p.Refuses definitions input cause)
    (hs : input.Spells t) (hp : p.Blames good named true) : named cause := by
  cases h with
  | satisfy mem =>
    cases hp with
    | satisfy _ _ none other =>
      simp only [List.mem_cons, List.not_mem_nil, or_false] at mem
      obtain rfl | rfl := mem
      · exact none
      · exact other
  | character first uncut =>
    have cut := hs.isSome_splitAt? first
    rw [uncut] at cut
    cases cut
  | literal | cut => cases hp
  | endOfInput =>
    cases hp with
    | endOfInput _ trailing => exact trailing
  | firstOf =>
    cases hp with
    | firstOf _ generic _ => exact generic
  | undefined undefined =>
    cases hp with
    | refer _ hr =>
      obtain ⟨q, defined, _⟩ := hg _ hr
      cases undefined.symm.trans defined
  | dropped dropped =>
    cases hp with
    | refer _ hr =>
      obtain ⟨q, defined, _⟩ := hg _ hr
      cases dropped.symm.trans defined

/-- A rejection of a text that has an origin in a pattern has a cause that the pattern names. -/
lemma Pattern.Origin.blames {e : Rejection} (h : p.Origin definitions input e)
    (regular : p.Regular) {t : List Char} (hs : input.Spells t) (hp : p.Blames good named start)
    (told : start = true ∨ 0 < e.offset) : named e.cause := by
  induction h generalizing start t with
  | refuses refuses =>
    obtain rfl | beyond := told
    · exact refuses.blames hg hs hp
    · exact absurd beyond (Nat.lt_irrefl 0)
  | givesUp _ givesUp => exact givesUp.blames hd regular hp
  | handedOn hq hr _ ih =>
    obtain ⟨_, _, _, spells⟩ := hr.spells hs
    exact ih (hq.regularOver regular) spells (hq.blames hp) (.inl rfl)
  -- A choice keeps only rejections beyond the start, so its alternatives need not be told there.
  | choice mem beyond _ ih =>
    cases regular with
    | firstOf regular =>
      cases hp with
      | firstOf _ _ hp => exact ih (regular _ mem) hs (hp _ mem) (.inr beyond)
  -- A label speaks for the start, and the body for all that lies beyond.
  | label message _ ih =>
    cases regular with
    | label _ regular =>
      cases hp with
      | label _ stated hb =>
        rw [Rejection.labelled]
        split
        · exact stated
        · next beyond => exact ih regular hs hb (.inr (Nat.pos_of_ne_zero beyond))
  | context name _ ih =>
    cases regular with
    | context _ regular =>
      cases hp with
      | context _ hb => exact ih regular hs hb told
  | rule defined _ ih =>
    cases hp with
    | refer _ hr =>
      obtain ⟨q, defined', hq⟩ := hg _ hr
      cases defined.symm.trans defined'
      exact ih (hd _ _ defined) hs hq (.inl rfl)

/-- A regular pattern rejects a text for the causes that it names, if the rules that it refers to
name them too. -/
theorem Goal.Yields.blames {t : List Char} (regular : p.Regular) (hp : p.Blames good named start)
    (hs : input.Spells t) {o : Outcome} (h : (Goal.apply p input).Yields definitions o) :
    o.Blames named start := by
  have explains := regular.explains (fun rule p _ => hd rule p) h
  cases o with
  | matched consumed remainder => trivial
  | rejected e => exact fun told => Pattern.Origin.blames hd hg explains regular hs hp told

end Runs

end Recognizer
