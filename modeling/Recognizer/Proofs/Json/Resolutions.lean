import Recognizer.Proofs.Json.Recognition
import Recognizer.Proofs.Json.Regular
import Recognizer.Proofs.Pattern.Resolutions

/-!
# How deeply the rules of a grammar nest

Each rule leads to a value only by way of an opening bracket, so that the brackets of a text bound
how many rules are being resolved at once, whether the text is derived from the grammar or not
(`resolutions_bounded`). The induction is on the number of brackets that are left in the input.
-/

namespace Recognizer.Json

open Pattern

variable {o : Options} {definitions : Link → Resolution Link} {link : Link} {t : List Char}
  {input : Slice} {k n : Nat}

/-- How many opening brackets there are in a text, within strings or not. -/
def openings (t : List Char) : Nat :=
  t.count '[' + t.count '\x7b'

/-- Opening brackets of two parts add up. -/
lemma openings_append (as bs : List Char) : openings (as ++ bs) = openings as + openings bs := by
  rw [openings, openings, openings, List.count_append, List.count_append]
  omega

/-- An opening bracket is one more. -/
lemma openings_opening (b : Bracket) (t : List Char) :
    openings (b.opening :: t) = openings t + 1 := by
  rw [openings, openings]
  cases b with
  | square =>
    rw [Bracket.opening, List.count_cons_self, List.count_cons_of_ne (by decide)]
    omega
  | curly =>
    rw [Bracket.opening, List.count_cons_self, List.count_cons_of_ne (by decide)]
    omega

/-- The link leads to the rule of values. -/
def ToValues (link : Link) : Prop :=
  link.rule = ⟨0, 0⟩

/-- The link leads to the rule of arrays or to that of objects. -/
def ToLists (link : Link) : Prop :=
  ∃ b, link.rule = (linkOf b).rule

/-- Values nest so in all inputs in which `k` brackets are opened at most. -/
def ValuesNest (definitions : Link → Resolution Link) (k : Nat) : Prop :=
  ∀ link input t, ToValues link → input.Spells t → openings t ≤ k →
    (Goal.resolve link input).NestsWithin definitions (2 * k + 2)

/-- The rules of the grammar are regular. -/
lemma regular_definitions {p : Pattern Link} (h : Json.definitions o link = .defined p) :
    p.Regular := by
  have regular : (Scope.ofRoots (finished o) [0]).store.Regular :=
    (regular_build Store.regular_empty (build_empty o)).1
  exact Store.Regular.definitions regular h

/-- A sequence that starts with a character nests as it does behind this character. -/
lemma nestsWithin_behind_char {d : Char} {p : Pattern Link} (hs : input.Spells t)
    (h : ∀ rest bs, t = d :: bs → rest.Spells bs →
      (Goal.apply p rest).NestsWithin definitions n) :
    (Goal.apply (.concat [.char d, p]) input).NestsWithin definitions n := by
  refine Goal.nestsWithin_of_asks rfl fun g asks => ?_
  rcases asks with rfl | ⟨o, yields, asks⟩
  · exact Goal.nestsWithin_of_asks rfl fun g asks => asks.elim
  · cases o with
    | rejected e => exact asks.elim
    | matched consumed rest =>
      obtain ⟨bs, split, hr⟩ := spells_of_yields_char hs yields
      rcases asks with rfl | ⟨o, _, asks⟩
      · exact h rest bs split hr
      · cases o <;> exact asks.elim

/-- A list is its opening bracket and something regular behind it. -/
lemma exists_behind_opening {good : Link → Prop} (o : Options) {value : Pattern Link}
    (hv : value.RegularOver good) (b : Bracket) : ∃ p name, p.RegularOver good ∧
      listOf o value b = .context (.concat [.char b.opening, p]) name := by
  have list : (listOf o value b).RegularOver good := by
    cases b with
    | square => exact regular_arrayOf hv
    | curly => exact regular_objectOf o hv
  obtain ⟨name, e⟩ := listOf_eq o value b
  rw [e, bracketed] at list
  cases list with
  | context _ parts => cases parts with
    | concat parts => exact ⟨_, name, parts _ (by simp), e⟩

section Rules

variable (hd : Defines o definitions)
  (regular : ∀ link p, definitions link = .defined p → p.Regular)

include hd regular

/-- The rule of a list nests one deeper than values do behind its bracket. -/
lemma nestsWithin_compound {b : Bracket} (hv : ∀ k' < k, ValuesNest definitions k')
    (hl : link.rule = (linkOf b).rule) (hs : input.Spells t) (hk : openings t ≤ k) :
    (Goal.resolve link input).NestsWithin definitions (2 * k + 1) := by
  refine Goal.nestsWithin_resolve (hd.list hl) ?_
  have value : inner.RegularOver ToValues := .refer rfl
  obtain ⟨p, name, inside, list⟩ := exists_behind_opening o value b
  rw [list]
  refine Goal.nestsWithin_of_asks rfl fun g asks => ?_
  rcases asks with rfl | ⟨_, _, asks⟩
  · refine nestsWithin_behind_char hs fun rest bs split hr => ?_
    rw [split, openings_opening] at hk
    refine Goal.nestsWithin_of_regular regular inside fun link rest' hl tail => ?_
    obtain ⟨as, cs, rfl, hr'⟩ := tail.spells hr
    rw [openings_append] at hk
    -- The bracket is paid for, so one is left less for the values.
    have below : 2 * (k - 1) + 2 = 2 * k := by omega
    rw [← below]
    exact hv (k - 1) (by omega) link rest' cs hl hr' (by omega)
  · exact asks.elim

/-- The rule of values nests one deeper than lists do. -/
lemma valuesNest (k : Nat) : ValuesNest definitions k := by
  -- Lists have fewer brackets behind their own, so the induction is on the number of brackets.
  induction k using Nat.strongRecOn with
  | ind k ih =>
    intro link input t hl hs hk
    refine Goal.nestsWithin_resolve ((hd link).1 hl) ?_
    have list (b : Bracket) : (refer (linkOf b)).RegularOver ToLists := .refer ⟨b, rfl⟩
    have value := regular_valueOf o (list .curly) (list .square)
    refine Goal.nestsWithin_of_regular regular value fun link rest hl tail => ?_
    obtain ⟨b, hl⟩ := hl
    obtain ⟨as, bs, rfl, hr⟩ := tail.spells hs
    rw [openings_append] at hk
    exact nestsWithin_compound hd regular ih hl hr (by omega)

end Rules

/-- Every way to start on a text nests two deep for each opening bracket, and two deep if there is
none. -/
lemma Start.nestsWithin (o : Options) (s : Start) (hs : input.Spells t) :
    (Goal.apply (s.pattern o) input).NestsWithin (Json.definitions o) (2 * openings t + 2) := by
  have hd : Defines o (Json.definitions o) := defines_finished o
  have regular (link : Link) (p : Pattern Link) (h : Json.definitions o link = .defined p) :
      p.Regular := regular_definitions h
  have value : (refer (.strong ⟨0, 0⟩)).RegularOver ToValues := .refer rfl
  have values (link : Link) (rest : Slice) (hl : ToValues link) (tail : input.HasTail rest) :
      (Goal.resolve link rest).NestsWithin (Json.definitions o) (2 * openings t + 2) := by
    obtain ⟨as, bs, rfl, hr⟩ := tail.spells hs
    rw [openings_append]
    exact valuesNest hd regular _ link rest bs hl hr (by omega)
  cases s with
  | value => exact Goal.nestsWithin_of_regular regular value values
  | document => exact Goal.nestsWithin_of_regular regular (regular_documentOf o value) values
  | compound b =>
    refine Goal.nestsWithin_of_asks rfl fun g asks => ?_
    rcases asks with rfl
    intro plan rules nests
    have list : (Link.strong (linkOf b).rule).rule = (linkOf b).rule := rfl
    have within := nestsWithin_compound hd regular (fun k' _ => valuesNest hd regular k') list hs
      (Nat.le_refl _) plan rules nests
    omega

/-- Every text comes to an outcome. On the way, however deep goals may nest, never more than
`2 * k + 2` rules are being resolved, where `k` is the number of opening brackets in the text. -/
theorem resolutions_bounded (o : Options) (s : Start) (t : List Char) :
    ∃ m out, s.entry.matcher o false = .ok m ∧
      recognize o s.entry false (.whole 0 t) = .ok out ∧
      (∀ depth ≥ depthFor (Text.byteLength t), ∃ time last,
        (Moment.start depth m.pattern (.whole 0 t)).after m.scope.definitions time = some last ∧
        last.machine.step m.scope.definitions = .inl (some out)) ∧
      ∀ depth time moment,
        (Moment.start depth m.pattern (.whole 0 t)).after m.scope.definitions time = some moment →
        moment.rules.length ≤ 2 * (t.count '[' + t.count '\x7b') + 2 := by
  have keeps : (Matcher.mk (s.pattern o) (finished o)).scope.definitions = Json.definitions o := by
    rw [Matcher.scope, s.keeps_pattern, Json.definitions]
  have outcome := isSome_parse? (s.matcher_entry o) (.whole 0 t)
  rw [Matcher.parse?, Pattern.parse?_eq_run, keeps] at outcome
  obtain ⟨out, run⟩ := Option.isSome_iff_exists.1 outcome
  refine ⟨⟨s.pattern o, finished o⟩, out, s.matcher_entry o, ?_, fun depth le => ?_,
    fun depth time moment after => ?_⟩
  · rw [recognize_eq_ok_iff (s.matcher_entry o), keeps]
    exact ⟨_, run⟩
  · rw [keeps]
    obtain ⟨time, last, after, halt⟩ :=
      Moment.exists_last (Json.definitions o) (.start depth (s.pattern o) (.whole 0 t))
    have answer := Goal.run_mono le run
    rw [← Pattern.parse?_eq_run] at answer
    exact ⟨time, last, after, halt.trans (congrArg Sum.inl answer)⟩
  · rw [keeps] at after
    obtain ⟨plan, nests⟩ := Moment.nests_of_after after
    exact s.nestsWithin o (Slice.spells_whole 0 t) plan moment.rules nests

/-- The bound is reached: in a value in an array in a value, the rule of objects is tried. -/
example : ((Moment.start 60 (Start.value.pattern {}) (.whole 0 ['['])).after
    (Json.definitions {}) 90).map (·.rules) =
      some [.weak ⟨0, 1⟩, .weak ⟨0, 0⟩, .weak ⟨0, 2⟩, .strong ⟨0, 0⟩] := by
  decide +kernel

end Recognizer.Json
