import Recognizer.Proofs.Pattern.Yields
import Recognizer.Proofs.Text.Tails

/-!
# Where rejections come from

A pattern is regular if it is put together from the primitives and combinators, with no functions
of its own but those that cut the input at some place. What a regular pattern leaves is a tail of
its input, and each of its rejections has an origin (`Pattern.Origin`): the pattern rejects the
input itself, gives up on a tail of it, or hands on the rejection of a part. The induction over a
run is done here once (`Pattern.RegularOver.explains`); what is to hold of all rejections is shown
of their origins, step by step.
-/

namespace Recognizer

variable {ρ : Type} {definitions : ρ → Resolution ρ} {good : ρ → Prop} {input rest : Slice}

/-- Put together from the primitives and combinators, with no functions of its own but cuts, and
with references to `good` rules only. -/
inductive Pattern.RegularOver (good : ρ → Prop) : Pattern ρ → Prop where
  | satisfy (accepts : Char → Bool) : RegularOver good (.satisfy accepts)
  | literal (text : String) : RegularOver good (.literal text)
  | endOfInput : RegularOver good .endOfInput
  | concat {parts : List (Pattern ρ)} :
    (∀ p ∈ parts, RegularOver good p) → RegularOver good (.concat parts)
  | firstOf {choices : List (Pattern ρ)} :
    (∀ p ∈ choices, RegularOver good p) → RegularOver good (.firstOf choices)
  | optional {body : Pattern ρ} : RegularOver good body → RegularOver good (.optional body)
  | implies {condition consequence : Pattern ρ} :
    RegularOver good condition → RegularOver good consequence →
    RegularOver good (.implies condition consequence)
  | repeated {body : Pattern ρ} (min : Nat) (max : Option Nat) :
    RegularOver good body → RegularOver good (.repeated body min max)
  | scan {stop body : Pattern ρ} :
    RegularOver good stop → RegularOver good body → RegularOver good (.scan stop body)
  | series {element separator : Pattern ρ} (config : Series.Config) :
    RegularOver good element → RegularOver good separator →
    RegularOver good (.series element separator config)
  | label {body : Pattern ρ} (message : String) :
    RegularOver good body → RegularOver good (.label body message)
  | context {body : Pattern ρ} (name : String) :
    RegularOver good body → RegularOver good (.context body name)
  | refer {rule : ρ} : good rule → RegularOver good (.refer rule)
  /-- A cut at a place that is computed from the input. -/
  | cut (place : Slice → Nat) : RegularOver good (.custom fun input => .split input (place input))

/-- Regular, whatever it refers to. -/
abbrev Pattern.Regular (p : Pattern ρ) : Prop :=
  p.RegularOver fun _ => True

/-- What is regular over some rules is regular. -/
lemma Pattern.RegularOver.regular {p : Pattern ρ} (h : p.RegularOver good) : p.Regular := by
  induction h with
  | satisfy accepts => exact .satisfy accepts
  | literal text => exact .literal text
  | endOfInput => exact .endOfInput
  | concat _ ih => exact .concat ih
  | firstOf _ ih => exact .firstOf ih
  | optional _ ih => exact .optional ih
  | implies _ _ ihc ihq => exact .implies ihc ihq
  | repeated min max _ ih => exact .repeated min max ih
  | scan _ _ ihs ihb => exact .scan ihs ihb
  | series config _ _ ihe ihs => exact .series config ihe ihs
  | label message _ ih => exact .label message ih
  | context name _ ih => exact .context name ih
  | refer _ => exact .refer trivial
  | cut place => exact .cut place

/-- The rejections of the second pattern, on a tail of the input, are handed on by the first. -/
inductive Pattern.HandsOn : Pattern ρ → Pattern ρ → Prop where
  | concat {parts : List (Pattern ρ)} {p : Pattern ρ} : p ∈ parts → HandsOn (.concat parts) p
  | implies (condition consequence : Pattern ρ) :
    HandsOn (.implies condition consequence) consequence
  | repeated (body : Pattern ρ) (min : Nat) (max : Option Nat) :
    HandsOn (.repeated body min max) body
  | scan (stop body : Pattern ρ) : HandsOn (.scan stop body) body
  | series (element separator : Pattern ρ) (config : Series.Config) :
    HandsOn (.series element separator config) element

/-- A part whose rejections are handed on is as regular as the whole. -/
lemma Pattern.HandsOn.regularOver {p q : Pattern ρ} (h : p.HandsOn q) (hp : p.RegularOver good) :
    q.RegularOver good := by
  cases h with
  | concat mem =>
    cases hp with
    | concat hp => exact hp _ mem
  | implies =>
    cases hp with
    | implies _ hq => exact hq
  | repeated =>
    cases hp with
    | repeated _ _ hb => exact hb
  | scan =>
    cases hp with
    | scan _ hb => exact hb
  | series =>
    cases hp with
    | series _ he _ => exact he

/-- The pattern matches the input and consumes nothing. -/
def Pattern.Stalls (definitions : ρ → Resolution ρ) (p : Pattern ρ) (input : Slice) : Prop :=
  ∃ consumed remainder, (Goal.apply p input).Yields definitions (.matched consumed remainder) ∧
    consumed.isEmpty = true

/-- With `rest` left of its input, the pattern may give up for this cause. -/
inductive Pattern.GivesUp (definitions : ρ → Resolution ρ) (rest : Slice) :
    Pattern ρ → Cause → Prop where
  | repeated {body : Pattern ρ} {min count : Nat} {max : Option Nat} : count < min →
    belowMax max count = false ∨ body.Stalls definitions rest →
    GivesUp definitions rest (.repeated body min max) (.tooFewRepetitions min count)
  | unterminated (stop body : Pattern ρ) :
    GivesUp definitions rest (.scan stop body) .unterminated
  | noProgress (stop : Pattern ρ) {body : Pattern ρ} : body.Stalls definitions rest →
    GivesUp definitions rest (.scan stop body) .noProgress
  | series {element separator : Pattern ρ} {config : Series.Config} {count : Nat} :
    0 < count → count < config.min →
    GivesUp definitions rest (.series element separator config) (.tooFewElements config.min count)

/-- The pattern may reject the input itself, at the very start and for this cause. -/
inductive Pattern.Refuses (definitions : ρ → Resolution ρ) (input : Slice) :
    Pattern ρ → Cause → Prop where
  | satisfy {accepts : Char → Bool} {cause : Cause} : cause ∈ [.noInput, .mismatch] →
    Refuses definitions input (.satisfy accepts) cause
  | character {accepts : Char → Bool} {c : Char} : input.first? = some c →
    input.splitAt? c.utf8Size = none →
    Refuses definitions input (.satisfy accepts) .notABoundary
  | literal {text : String} {cause : Cause} :
    cause ∈ [.notABoundary, .noInput, .notEnoughInput, .expected text] →
    Refuses definitions input (.literal text) cause
  | endOfInput : Refuses definitions input .endOfInput .trailingInput
  | cut (place : Slice → Nat) :
    Refuses definitions input (.custom fun input => .split input (place input)) .notABoundary
  | firstOf (choices : List (Pattern ρ)) :
    Refuses definitions input (.firstOf choices) .noAlternative
  | undefined {rule : ρ} {name : String} : definitions rule = .undefined name →
    Refuses definitions input (.refer rule) (.undefinedRule name)
  | dropped {rule : ρ} : definitions rule = .dropped →
    Refuses definitions input (.refer rule) .grammarDropped

/-- Where the rejection of an input by a regular pattern comes from. -/
inductive Pattern.Origin (definitions : ρ → Resolution ρ) :
    Pattern ρ → Slice → Rejection → Prop where
  | refuses {p : Pattern ρ} {input : Slice} {cause : Cause} :
    p.Refuses definitions input cause → Origin definitions p input { cause }
  | givesUp {p : Pattern ρ} {input rest : Slice} {cause : Cause} : input.HasTail rest →
    p.GivesUp definitions rest cause →
    Origin definitions p input { cause, offset := input.progress rest }
  | handedOn {p q : Pattern ρ} {input rest : Slice} {e : Rejection} : p.HandsOn q →
    input.HasTail rest → Origin definitions q rest e →
    Origin definitions p input (e.shifted (input.progress rest))
  /-- A choice hands on what its patterns say behind the start. -/
  | choice {choices : List (Pattern ρ)} {p : Pattern ρ} {input : Slice} {e : Rejection} :
    p ∈ choices → 0 < e.offset → Origin definitions p input e →
    Origin definitions (.firstOf choices) input e
  | label {body : Pattern ρ} {input : Slice} {e : Rejection} (message : String) :
    Origin definitions body input e →
    Origin definitions (.label body message) input (e.labelled message)
  | context {body : Pattern ρ} {input : Slice} {e : Rejection} (name : String) :
    Origin definitions body input e → Origin definitions (.context body name) input (e.within name)
  | rule {rule : ρ} {p : Pattern ρ} {input : Slice} {e : Rejection} :
    definitions rule = .defined p → Origin definitions p input e →
    Origin definitions (.refer rule) input e

/-- A match is a cut of the input, and a rejection has an origin. -/
def Pattern.Explains (definitions : ρ → Resolution ρ) (p : Pattern ρ) (input : Slice) :
    Outcome → Prop
  | .matched consumed remainder => input.splitAt? consumed.size = some (consumed, remainder)
  | .rejected e => p.Origin definitions input e

namespace Goal

/-- The pattern that a goal is about. -/
def pattern : Goal ρ → Pattern ρ
  | apply p _ => p
  | resolve rule _ => .refer rule
  | repeating body min max _ _ _ => .repeated body min max
  | scanning stop body _ _ => .scan stop body
  | listing element separator config _ _ _ => .series element separator config

/-- The input that the offsets of an answer are counted from. -/
def whole : Goal ρ → Slice
  | apply _ input | resolve _ input | repeating _ _ _ input _ _ | scanning _ _ input _
  | listing _ _ _ input _ _ => input

/-- A loop under way stands at a tail of its input, and a series behind an element. -/
def UnderWay : Goal ρ → Prop
  | apply _ _ | resolve _ _ => True
  | repeating _ _ _ input rest _ | scanning _ _ input rest => input.HasTail rest
  | listing _ _ _ input rest count => input.HasTail rest ∧ 0 < count

/-- The answer to a regular goal is explained by its pattern. -/
def Explained (definitions : ρ → Resolution ρ) (good : ρ → Prop) (g : Goal ρ) (o : Outcome) :
    Prop :=
  g.pattern.RegularOver good → g.UnderWay → g.pattern.Explains definitions g.whole o

/-- What is known of the answers on the way. -/
def Known (definitions : ρ → Resolution ρ) (good : ρ → Prop) (g : Goal ρ) (o : Outcome) : Prop :=
  g.Yields definitions o ∧ g.Explained definitions good o

/-- The answer of a part on the way is explained by the part. -/
lemma Known.explains {p : Pattern ρ} {o : Outcome}
    (known : (Goal.apply p rest).Known definitions good o) (hp : p.RegularOver good) :
    p.Explains definitions rest o :=
  known.2 hp trivial

end Goal

/-- Of two rejections the further one is one of the two. -/
lemma Rejection.forall_further {P : Rejection → Prop} {best : Option Rejection} {e : Rejection}
    (hb : ∀ e ∈ best, P e) (he : P e) : ∀ e' ∈ some (further best e), P e' := by
  intro e' h'
  cases h'
  cases best with
  | none => exact he
  | some best =>
    rw [further]
    split
    · exact he
    · exact hb best rfl

namespace Pattern

variable {p q : Pattern ρ} {o : Outcome} {e : Rejection}

/-- What a match leaves is a tail of the input. -/
lemma Explains.hasTail {consumed remainder : Slice}
    (h : p.Explains definitions input (.matched consumed remainder)) : input.HasTail remainder :=
  ⟨_, _, h⟩

/-- To match nothing needs no explanation. -/
lemma explains_empty : p.Explains definitions input (.empty input) :=
  Slice.splitAt?_zero input

/-- What is rebuilt from a tail is a cut. -/
lemma explains_fromRemainder (hr : input.HasTail rest) :
    p.Explains definitions input (.fromRemainder input rest) := by
  obtain ⟨taken, matched, cut⟩ := hr.exists_matched
  rw [matched]
  exact cut

/-- A cut is a cut, or the place where it should be is refused. -/
lemma explains_split {n : Nat}
    (h : input.splitAt? n = none → p.Refuses definitions input .notABoundary) :
    p.Explains definitions input (.split input n) := by
  rw [Outcome.split]
  cases hs : input.splitAt? n with
  | none => exact .refuses (h hs)
  | some parts =>
    obtain ⟨_, _, taken, _⟩ := Slice.splitAt?_eq_some_iff.1 hs
    have size : parts.1.size = n := congrArg Slice.size taken
    show input.splitAt? parts.1.size = some (parts.1, parts.2)
    rw [size, hs]

/-- A character is cut off, or refused. -/
lemma explains_ofChar (accepts : Char → Bool) :
    (satisfy accepts : Pattern ρ).Explains definitions input (.ofChar accepts input) := by
  rw [Outcome.ofChar]
  split
  · exact .refuses (.satisfy (by simp))
  · next c first =>
    split
    · exact explains_split (.character first)
    · exact .refuses (.satisfy (by simp))

/-- A text is cut off, or refused. -/
lemma explains_ofText (text : String) :
    (literal text : Pattern ρ).Explains definitions input (.ofText text input) := by
  rw [Outcome.ofText]
  split
  · exact explains_split fun _ => .literal (by simp)
  · split
    · exact .refuses (.literal (by simp))
    · split
      · exact .refuses (.literal (by simp))
      · exact .refuses (.literal (by simp))

/-- The end of the input matches nothing, or there is more. -/
lemma explains_ofEnd :
    (endOfInput : Pattern ρ).Explains definitions input (.ofEnd input) := by
  rw [Outcome.ofEnd]
  split
  · exact explains_empty
  · exact .refuses .endOfInput

/-- A rejection at a tail is handed on, counted from the start of the input. -/
lemma Explains.handedOn (h : q.Explains definitions rest (.rejected e)) (hq : p.HandsOn q)
    (hr : input.HasTail rest) :
    p.Explains definitions input (.rejected (e.shifted (input.progress rest))) :=
  Origin.handedOn hq hr h

/-- A repetition ends by itself, gives up, or hands on what its body says. -/
lemma explains_ofRepeated {body : Pattern ρ} {min count : Nat} {max : Option Nat}
    {stoppedBy : Option Rejection} (hr : input.HasTail rest)
    (ended : stoppedBy = none → belowMax max count = false ∨ body.Stalls definitions rest)
    (hs : ∀ e ∈ stoppedBy, body.Origin definitions rest e) :
    (repeated body min max).Explains definitions input
      (.ofRepeated min input rest count stoppedBy) := by
  rw [Outcome.ofRepeated.eq_def]
  split
  · exact explains_fromRemainder hr
  · next few =>
    cases stoppedBy with
    | none => exact .givesUp hr (.repeated (Nat.lt_of_not_le few) (ended rfl))
    | some e => exact Origin.handedOn (.repeated body min max) hr (hs e rfl)

/-- A series ends by itself, or gives up. -/
lemma explains_ofSeries {element separator : Pattern ρ} {config : Series.Config} {count : Nat}
    (hr : input.HasTail rest) (some : 0 < count) :
    (series element separator config).Explains definitions input
      (.ofSeries config.min input rest count) := by
  rw [Outcome.ofSeries]
  split
  · next few => exact .givesUp hr (.series some few)
  · exact explains_fromRemainder hr

end Pattern

namespace Plan

open Pattern

variable {o : Outcome}

/-- A sequence under way hands on what its parts say. -/
lemma explains_ofParts {all parts : List (Pattern ρ)} (sub : ∀ p ∈ parts, p ∈ all)
    (hp : ∀ p ∈ all, p.RegularOver good) (hr : input.HasTail rest)
    (h : (ofParts input parts rest).Reaches (Goal.Known definitions good) o) :
    (concat all).Explains definitions input o := by
  -- What is left of the input changes from part to part; that it is a tail does not.
  induction parts generalizing rest with
  | nil =>
    cases h
    exact explains_fromRemainder hr
  | cons p ps ih =>
    rw [List.forall_mem_cons] at sub
    obtain ⟨o', known, h⟩ := h
    have explains := known.explains (hp p sub.1)
    cases o' with
    | matched consumed remainder => exact ih sub.2 (hr.trans explains.hasTail) h
    | rejected e =>
      cases h
      exact explains.handedOn (.concat sub.1) hr

/-- A choice under way keeps a rejection of one of its patterns. -/
lemma explains_ofChoices {all choices : List (Pattern ρ)} (sub : ∀ p ∈ choices, p ∈ all)
    (hp : ∀ p ∈ all, p.RegularOver good) {best : Option Rejection}
    (hb : ∀ e ∈ best, ∃ p ∈ all, p.Origin definitions input e)
    (h : (ofChoices input choices best).Reaches (Goal.Known definitions good) o) :
    (firstOf all).Explains definitions input o := by
  induction choices generalizing best with
  | nil =>
    cases h
    cases best with
    | none => exact .refuses (.firstOf all)
    | some e =>
      obtain ⟨p, mem, origin⟩ := hb e rfl
      rw [Outcome.ofFurthest]
      split
      · next beyond => exact .choice mem beyond origin
      · exact .refuses (.firstOf all)
  | cons p ps ih =>
    rw [List.forall_mem_cons] at sub
    obtain ⟨o', known, h⟩ := h
    have explains := known.explains (hp p sub.1)
    cases o' with
    | matched consumed remainder =>
      cases h
      exact explains
    | rejected e => exact ih sub.2 (Rejection.forall_further hb ⟨p, sub.1, explains⟩) h

/-- A repetition under way stands at a tail again when it goes on. -/
lemma explains_ofRepeating {body : Pattern ρ} {min count : Nat} {max : Option Nat}
    (hb : body.RegularOver good) (hr : input.HasTail rest)
    (h : (ofRepeating body min max input rest count).Reaches (Goal.Known definitions good) o) :
    (repeated body min max).Explains definitions input o := by
  rw [ofRepeating] at h
  split at h
  · obtain ⟨o', known, h⟩ := h
    have explains := known.explains hb
    cases o' with
    | matched consumed remainder =>
      simp only at h
      split at h
      · next nothing =>
        cases h
        exact explains_ofRepeated hr (fun _ => .inr ⟨_, _, known.1, nothing⟩) nofun
      · exact h.2 (.repeated min max hb) (hr.trans explains.hasTail)
    | rejected e =>
      cases h
      refine explains_ofRepeated hr nofun ?_
      rintro _ ⟨⟩
      exact explains
  · next full =>
    cases h
    exact explains_ofRepeated hr (fun _ => .inl (Bool.eq_false_iff.2 full)) nofun

/-- So does a scan. -/
lemma explains_ofScanning {stop body : Pattern ρ} (hs : stop.RegularOver good)
    (hb : body.RegularOver good) (hr : input.HasTail rest)
    (h : (ofScanning stop body input rest).Reaches (Goal.Known definitions good) o) :
    (scan stop body).Explains definitions input o := by
  obtain ⟨o', known, h⟩ := h
  have explains := known.explains hs
  cases o' with
  | matched consumed remainder =>
    cases h
    exact explains_fromRemainder (hr.trans explains.hasTail)
  | rejected e =>
    simp only at h
    split at h
    · cases h
      exact .givesUp hr (.unterminated stop body)
    · obtain ⟨o', known, h⟩ := h
      have explains := known.explains hb
      cases o' with
      | matched consumed remainder =>
        simp only at h
        split at h
        · next nothing =>
          cases h
          exact .givesUp hr (.noProgress stop ⟨_, _, known.1, nothing⟩)
        · exact h.2 (.scan hs hb) (hr.trans explains.hasTail)
      | rejected e =>
        cases h
        exact explains.handedOn (.scan stop body) hr

/-- So does a series, which has one more element then. -/
lemma explains_ofListing {element separator : Pattern ρ} {config : Series.Config} {count : Nat}
    (he : element.RegularOver good) (hs : separator.RegularOver good) (hr : input.HasTail rest)
    (some : 0 < count)
    (h : (ofListing element separator config input rest count).Reaches
      (Goal.Known definitions good) o) :
    (series element separator config).Explains definitions input o := by
  rw [ofListing] at h
  split at h
  · obtain ⟨o', known, h⟩ := h
    have explains := known.explains hs
    cases o' with
    | rejected e =>
      cases h
      exact explains_ofSeries hr some
    | matched consumed after =>
      have tail := hr.trans explains.hasTail
      obtain ⟨o', known, h⟩ := h
      have explains := known.explains he
      cases o' with
      | matched consumed remainder =>
        simp only at h
        split at h
        · cases h
          exact explains_ofSeries hr some
        -- The next round starts at a tail of a tail.
        · exact h.2 (.series config he hs) ⟨tail.trans explains.hasTail, Nat.succ_pos count⟩
      | rejected e =>
        simp only at h
        split at h
        · cases h
          exact explains_ofSeries hr some
        · split at h
          -- A separator without an element: the series is refused behind it, or keeps it.
          · cases h
            exact explains.handedOn (.series element separator config) tail
          · cases h
            exact explains_ofSeries tail some
  · cases h
    exact explains_ofSeries hr some

/-- The outcome of a regular pattern is explained if those of its parts are. -/
lemma explains_ofPattern {p : Pattern ρ} (hp : p.RegularOver good)
    (h : (p.plan input).Reaches (Goal.Known definitions good) o) :
    p.Explains definitions input o := by
  have refl : input.HasTail input := .refl input
  cases hp with
  | satisfy accepts =>
    cases h
    exact explains_ofChar accepts
  | literal text =>
    cases h
    exact explains_ofText text
  | endOfInput =>
    cases h
    exact explains_ofEnd
  | concat hp => exact explains_ofParts (fun _ mem => mem) hp refl h
  | @firstOf choices hp =>
    have nothing : ∀ e ∈ none, ∃ p ∈ choices, p.Origin definitions input e := fun _ he => nomatch he
    exact explains_ofChoices (fun _ mem => mem) hp nothing h
  | optional hb =>
    obtain ⟨o', known, h⟩ := h
    have explains := known.explains hb
    cases o' with
    | matched consumed remainder =>
      cases h
      exact explains
    | rejected e =>
      cases h
      exact explains_empty
  | @implies condition consequence hc hq =>
    obtain ⟨o', known, h⟩ := h
    have explains := known.explains hc
    cases o' with
    | rejected e =>
      cases h
      exact explains_empty
    | matched consumed remainder =>
      obtain ⟨o', known', h⟩ := h
      have explains' := known'.explains hq
      cases o' with
      | matched consumed' rest =>
        cases h
        exact explains_fromRemainder (explains.hasTail.trans explains'.hasTail)
      | rejected e =>
        cases h
        exact explains'.handedOn (.implies condition consequence) explains.hasTail
  | repeated min max hb => exact h.2 (.repeated min max hb) refl
  | scan hs hb => exact h.2 (.scan hs hb) refl
  | @series element separator config he hs =>
    rw [Pattern.plan] at h
    split at h
    · cases h
      exact explains_empty
    · obtain ⟨o', known, h⟩ := h
      have explains := known.explains he
      cases o' with
      | matched consumed remainder =>
        exact h.2 (.series config he hs) ⟨explains.hasTail, Nat.one_pos⟩
      | rejected e =>
        cases h
        split
        · exact explains_empty
        · have first := explains.handedOn (.series element separator config) refl
          rw [Slice.progress_self] at first
          exact first
  | label message hb =>
    obtain ⟨o', known, h⟩ := h
    have explains := known.explains hb
    cases h
    cases o' with
    | matched consumed remainder => exact explains
    | rejected e => exact .label message explains
  | context name hb =>
    obtain ⟨o', known, h⟩ := h
    have explains := known.explains hb
    cases h
    cases o' with
    | matched consumed remainder => exact explains
    | rejected e => exact .context name explains
  | refer hg => exact h.2 (.refer hg) trivial
  | cut place =>
    cases h
    exact explains_split fun _ => .cut place

end Plan

/-- The answer to a regular goal is explained if all answers on the way are. -/
lemma Goal.explained_of_reaches
    (hg : ∀ rule p, good rule → definitions rule = .defined p → p.RegularOver good) {g : Goal ρ}
    {o : Outcome} (h : (g.plan definitions).Reaches (Goal.Known definitions good) o) :
    g.Explained definitions good o := by
  intro regular underWay
  cases g with
  | apply p input => exact Plan.explains_ofPattern regular h
  | repeating body min max input rest count =>
    cases regular with
    | repeated _ _ hb => exact Plan.explains_ofRepeating hb underWay h
  | scanning stop body input rest =>
    cases regular with
    | scan hs hb => exact Plan.explains_ofScanning hs hb underWay h
  | listing element separator config input rest count =>
    cases regular with
    | series _ he hs => exact Plan.explains_ofListing he hs underWay.1 underWay.2 h
  | resolve rule input =>
    cases regular with
    | refer hr =>
      rw [Goal.plan] at h
      split at h
      · next p defined =>
        have explains := Goal.Known.explains h (hg rule p hr defined)
        cases o with
        | matched consumed remainder => exact explains
        | rejected e => exact .rule defined explains
      · next name undefined =>
        cases h
        exact .refuses (.undefined undefined)
      · next dropped =>
        cases h
        exact .refuses (.dropped dropped)

/-- A match of a regular pattern cuts the input, and its rejections have an origin, if the rules
that it refers to are regular. -/
theorem Pattern.RegularOver.explains
    (hg : ∀ rule p, good rule → definitions rule = .defined p → p.RegularOver good)
    {p : Pattern ρ} (hp : p.RegularOver good) {o : Outcome}
    (h : (Goal.apply p input).Yields definitions o) : p.Explains definitions input o := by
  have explained : (Goal.apply p input).Explained definitions good o :=
    h.of_closed_yields fun _ _ reached => Goal.explained_of_reaches hg reached
  exact explained hp trivial

end Recognizer
