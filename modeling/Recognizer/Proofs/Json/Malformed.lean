import Recognizer.Proofs.Json.Recognition

/-!
# Lists whose items are malformed

Behind an opening bracket, whitespace and a character that does not close the list, both the empty
list and the list of items may be refused. If an item gets beyond its whitespace, the list is
rejected for what is wrong in it, in those words and at that place; if not, the place is the same,
but the words are those of the missing bracket or of the choice (`refused_list`,
`refused_list_first_item`).
-/

namespace Recognizer

open Text

namespace Pattern

variable {ρ : Type} {definitions : ρ → Resolution ρ} {p q : Pattern ρ} {cs : List Char}
  {e e' : Rejection}

/-- Of two patterns that are refused, the one that gets further tells why. -/
lemma refuses_firstOf_further (hp : p.Answers definitions cs (.refused e))
    (hq : q.Answers definitions cs (.refused e')) (lt : e.offset < e'.offset) :
    (firstOf [p, q]).Answers definitions cs (.refused e') := by
  refine Chooses.firstOf (.cons hp (.cons hq (chooses_nil ?_)))
  show Outcome.ofFurthest (some (Rejection.further (some e) e')) = _
  rw [Rejection.further, if_pos lt, Outcome.ofFurthest, if_pos (Nat.zero_lt_of_lt lt)]

/-- If they get equally far, the first one does, but not at the very start. -/
lemma refuses_firstOf_tie (hp : p.Answers definitions cs (.refused e))
    (hq : q.Answers definitions cs (.refused e')) (same : e'.offset = e.offset) :
    (firstOf [p, q]).Answers definitions cs
      (.refused (if 0 < e.offset then e else { cause := .noAlternative })) := by
  refine Chooses.firstOf (.cons hp (.cons hq (chooses_nil ?_)))
  show Outcome.ofFurthest (some (Rejection.further (some e) e')) = _
  rw [Rejection.further, if_neg (by omega), Outcome.ofFurthest]
  split
  · rfl
  · rfl

end Pattern

namespace Json

open Position

variable {o : Options} {definitions : Link → Resolution Link} {b : Bracket} {c : Char}
  {w cs : List Char}

/-- Whitespace and the closing bracket. -/
def emptyList (b : Bracket) : Pattern Link :=
  .concat [whitespace, .char b.closing]

/-- The items with commas between them, and the closing bracket. -/
def filledList (o : Options) (b : Bracket) : Pattern Link :=
  .concat [.separated (itemOf o inner b) comma, .char b.closing]

/-- Behind the whitespace, the closing bracket is missing. -/
lemma refuses_emptyList (hw : IsBlank w) (solid : CharClass.whitespace.accepts c = false)
    (other : c ≠ b.closing) : (emptyList b).Answers definitions (w ++ c :: cs)
      (.refused { cause := .mismatch, offset := byteLength w }) := by
  have unblank : Unblank (c :: cs) := unblank_cons solid cs
  obtain ⟨w', bs, split, hw', hbs, ha⟩ := exists_blank definitions (w ++ c :: cs)
  obtain rfl := eq_of_blank_append hw hw' unblank hbs split
  obtain rfl := List.append_cancel_right split
  have missing : (Pattern.char b.closing).Answers definitions (c :: cs)
      (.refused { cause := .mismatch }) := Pattern.refuses_char_cons other cs
  have refused := (Course.answers_parts_cons ha (Course.refuses_parts_cons missing [])).concat
  rw [Verdict.behind, Rejection.shifted, Nat.zero_add] at refused
  exact refused

/-- The items get through the whitespace, if they are refused. -/
lemma exists_answers_filledList (hd : Defines o definitions) (hw : IsBlank w)
    (solid : CharClass.whitespace.accepts c = false) (other : c ≠ b.closing) :
    ∃ v, (filledList o b).Answers definitions (w ++ c :: cs) v ∧
      ∀ e, v = .refused e → byteLength w ≤ e.offset := by
  have unblank : Unblank (c :: cs) := unblank_cons solid cs
  have opens : Opens true b (w ++ c :: cs) := by
    intro _ w' bs split hw' closing
    obtain rfl := eq_of_blank_append hw hw' unblank (unblank_closing closing) split
    exact other (Option.some.inj closing)
  have below : FollowsBelow definitions o false inner (w ++ c :: cs).length.succ :=
    fun cs' fresh σ _ starts => follows_value hd _ rfl cs' starts
  have follows : Follows o false (inside true b []) ((filledList o b).Answers definitions
      (w ++ c :: cs)) (w ++ c :: cs) (closedAim o b []) := follows_filled below opens
  obtain ⟨v, answers, tracks⟩ := follows
  refine ⟨v, answers, fun e refused => ?_⟩
  subst refused
  generalize eq : w ++ c :: cs = t at tracks
  cases tracks with
  | refused stops _ =>
    subst eq
    exact stops.le (fun d hd => step_inside_blank b (hw d hd)) ne_literal_of_inside

/-- What comes behind the opening bracket, if the items are refused. -/
lemma refuses_behind_opening {e : Rejection} (hw : IsBlank w)
    (solid : CharClass.whitespace.accepts c = false) (other : c ≠ b.closing)
    (items : (filledList o b).Answers definitions (w ++ c :: cs) (.refused e))
    (le : byteLength w ≤ e.offset) :
    ∃ e' : Rejection, (Pattern.firstOf [emptyList b, filledList o b]).Answers definitions
        (w ++ c :: cs) (.refused e') ∧ e'.offset = e.offset ∧
      (byteLength w < e.offset → e'.cause = e.cause) ∧
      (e.offset = byteLength w → e'.cause = if w = [] then .noAlternative else .mismatch) := by
  have empty : (emptyList b).Answers definitions (w ++ c :: cs)
      (.refused { cause := .mismatch, offset := byteLength w }) :=
    refuses_emptyList hw solid other
  -- The further one of the two rejections is kept, and of two that are as far the earlier one.
  obtain lt | same := Nat.lt_or_eq_of_le le
  · refine ⟨e, Pattern.refuses_firstOf_further empty items lt, rfl, fun _ => rfl, fun same => ?_⟩
    omega
  · refine ⟨_, Pattern.refuses_firstOf_tie empty items same.symm, ?_, fun lt => ?_, fun _ => ?_⟩
    · split
      · exact same
      · next nothing => exact (Nat.eq_zero_of_not_pos nothing).symm.trans same
    · omega
    · by_cases nil : w = []
      · subst nil
        rfl
      · have pos : 0 < byteLength w := Nat.pos_of_ne_zero (mt byteLength_eq_zero.1 nil)
        rw [if_pos pos, if_neg nil]

/-- The rule of a list answers what comes behind its opening bracket. -/
lemma answers_list (hd : Defines o definitions) {link : Link} (hl : link.rule = (linkOf b).rule)
    {v : Verdict}
    (h : (Pattern.firstOf [emptyList b, filledList o b]).Answers definitions cs v) :
    ∃ name, (Pattern.refer link).Answers definitions (b.opening :: cs)
      ((v.behind [b.opening]).mapRejection (·.within name)) := by
  obtain ⟨name, list⟩ := listOf_eq o inner b
  have start : (Pattern.char b.opening).Answers definitions (b.opening :: cs)
      (.taken [b.opening] cs) := Pattern.answers_char b.opening cs
  have behind := (Course.answers_parts_cons start (Course.answers_parts_singleton h)).concat
  exact ⟨name, (behind.context name).refer ((hd.list hl).trans (congrArg _ list))⟩

/-- Behind an opening bracket, whitespace and a character that does not close the list, a list is
rejected where its items are, one byte later. If that is behind the whitespace it is rejected for
the same cause; if it is right behind the whitespace, for want of the closing bracket or, without
whitespace, of any alternative. -/
theorem refused_list (o : Options) (b : Bracket) (w : List Char) (c : Char) (cs : List Char)
    (e : Rejection) (blank : IsBlank w) (solid : CharClass.whitespace.accepts c = false)
    (other : c ≠ b.closing)
    (refused : parse o (.compound b) (b.opening :: (w ++ c :: cs)) = .ok (.refused e)) :
    ∃ e', (filledList o b).Answers (Json.definitions o) (w ++ c :: cs) (.refused e') ∧
      e.offset = e'.offset + 1 ∧ byteLength w ≤ e'.offset ∧
      (byteLength w < e'.offset → e.message = e'.message) ∧
      (e'.offset = byteLength w →
        e.cause = if w = [] then .noAlternative else .mismatch) := by
  have hd : Defines o (Json.definitions o) := defines_finished o
  have hl : (Link.strong (linkOf b).rule).rule = (linkOf b).rule := rfl
  obtain ⟨v, items, le⟩ := exists_answers_filledList hd blank solid other
  cases v with
  -- Items that are taken would make the list match, which it does not.
  | taken as bs =>
    have empty : (emptyList b).Answers (Json.definitions o) (w ++ c :: cs)
        (.refused { cause := .mismatch, offset := byteLength w }) :=
      refuses_emptyList blank solid other
    obtain ⟨name, list⟩ := answers_list hd hl (Pattern.answers_firstOf_pair empty items)
    have answers : ((Start.compound b).pattern o).Answers (Json.definitions o) _ _ := list
    cases (parse_eq answers).symm.trans refused
  | refused e' =>
    have le := le e' rfl
    obtain ⟨e'', behind, offset, deeper, first⟩ := refuses_behind_opening blank solid other items le
    obtain ⟨name, list⟩ := answers_list hd hl behind
    have answers : ((Start.compound b).pattern o).Answers (Json.definitions o) _ _ := list
    cases (parse_eq answers).symm.trans refused
    have one : byteLength [b.opening] = 1 := by cases b <;> rfl
    refine ⟨e', items, ?_, le, fun lt => congrArg Cause.message (deeper lt), first⟩
    show e''.offset + byteLength [b.opening] = e'.offset + 1
    rw [one, offset]

/-- A rejection of a whole text is the verdict on it. -/
lemma parse_eq_of_yields {s : Start} {t : List Char} {e : Rejection}
    (h : (Goal.apply (s.pattern o) (.whole 0 t)).Yields (Json.definitions o) (.rejected e)) :
    parse o s t = .ok (.refused e) := by
  rw [Json.definitions, ← s.keeps_pattern o] at h
  rw [parse, Entry.parse, (recognize_eq_ok_iff (s.matcher_entry o)).2 h]
  rfl

/-- Behind the comma of `[1,]` a value is missing. -/
theorem refused_list_comma :
    parse {} (.compound .square) ['[', '1', ',', ']'] = .ok (.refused
      { cause := .stated "expected a JSON value", offset := 3, context := some "array" }) ∧
    ∃ e', (filledList {} .square).Answers (Json.definitions {}) ['1', ',', ']'] (.refused e') ∧
      e'.offset = 2 ∧ e'.message = "expected a JSON value" := by
  have refused : parse {} (.compound .square) ['[', '1', ',', ']'] = .ok (.refused
      { cause := .stated "expected a JSON value", offset := 3, context := some "array" }) :=
    parse_eq_of_yields ⟨40, by decide +kernel⟩
  obtain ⟨e', items, offset, _, deeper, _⟩ :=
    refused_list {} .square [] '1' [',', ']'] _ isBlank_nil rfl (by decide) refused
  have two : e'.offset = 2 := Nat.succ.inj offset.symm
  refine ⟨refused, e', items, two, (deeper ?_).symm⟩
  rw [two, byteLength_nil]
  exact Nat.zero_lt_two

/-- The first item of `[ x]` is missing, as its list of items says, but the rejection is about the
closing bracket behind the whitespace. -/
theorem refused_list_first_item :
    parse {} (.compound .square) ['[', ' ', 'x', ']'] = .ok (.refused
      { cause := .mismatch, offset := 2, context := some "array" }) ∧
    (Goal.apply (filledList {} .square) (.whole 0 [' ', 'x', ']'])).Yields (Json.definitions {})
      (.rejected { cause := .stated "expected a JSON value", offset := 1 }) :=
  ⟨parse_eq_of_yields ⟨40, by decide +kernel⟩, 40, by decide +kernel⟩

end Json

end Recognizer
