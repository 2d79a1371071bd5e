import Recognizer.Proofs.Json.Resolutions
import Recognizer.Proofs.Pattern.Closed

/-!
# Values by their first character

Numbers, strings and lists read their first character for good, and all other choices decline where
one of them starts. So a value comes to the outcome of its choice, whatever is wrong further on
(`recognize_value`).
-/

namespace Recognizer.Json

open Text Position

variable {definitions : Link → Resolution Link} {o : Options} {k : Kind} {c : Char}
  {σ : List Bracket} {t : List Char} {v : Verdict} {input : Slice} {entry : Entry}

/-- A list as the definition of values refers to it. -/
abbrev listLink (b : Bracket) : Pattern Link :=
  .refer (linkOf b)

namespace Kind

/-- The entry point for the values of a kind. Literals have none. -/
def entry? (o : Options) : Kind → Option Entry
  | string => some (if o.strictStrings then .strictString else .string)
  | number => some .number
  | list b => some (Start.compound b).entry
  | literal _ => none

/-- A kind with an entry point is always tried. -/
lemma mem_kinds (he : k.entry? o = some entry) : k ∈ kinds o := by
  apply List.mem_append_left
  cases k with
  | list b => cases b <;> decide
  | literal text => cases he
  | _ => decide

/-- Such a kind reads its first character for good. -/
lemma exists_start (he : k.entry? o = some entry) (start : k.Starts c) :
    ∃ q, startValue o σ c = some q ∧ q.backlog = [] := by
  cases k with
  | string =>
    cases start
    exact ⟨_, rfl, rfl⟩
  | number =>
    rcases start with rfl | digit
    · exact ⟨_, rfl, rfl⟩
    · obtain ⟨place, first⟩ := first_ne_none_of_digit digit
      exact ⟨_, startValue_of_first first, rfl⟩
  | list b =>
    cases start
    cases b with
    | square => exact ⟨_, rfl, rfl⟩
    | curly => exact ⟨_, rfl, rfl⟩
  | literal text => cases he

/-- Such a value reads its first character for good. -/
lemma exists_commits (hd : Defines o definitions) (he : k.entry? o = some entry)
    (hc : c ∈ t.head?) (start : k.Starts c) :
    ∃ v, (k.pattern o (listOf o inner)).Answers definitions t v ∧ v.Commits := by
  have starts : Json.Starts o false false [] t := fun c _ => step_value (fun _ => rfl) nofun
  have below : FollowsBelow definitions o false inner t.length := fun cs fresh σ _ starts =>
    follows_value hd _ rfl cs starts
  obtain ⟨v, ha, tracks⟩ := follows_kind (mem_kinds he) hc start starts fun b hb =>
    follows_value_list below hb
  obtain ⟨q, hs, none⟩ := exists_start (σ := []) he start
  exact ⟨v, ha, tracks.commits ((starts c hc).trans hs) none hc⟩

/-- A list is answered by its rule as by its definition. -/
lemma answers_listLink (hd : Defines o definitions)
    (ha : (k.pattern o (listOf o inner)).Answers definitions t v) :
    (k.pattern o listLink).Answers definitions t v := by
  cases k with
  | list b => exact ha.refer (hd.list rfl)
  | _ => exact ha

/-- The entry point comes to the outcome that the choice answers with. -/
lemma recognize_entry (he : k.entry? o = some entry)
    (ha : (k.pattern o (listOf o inner)).Answers (Json.definitions o) t v)
    (hi : input.Spells t) : recognize o entry false input = .ok (v.outcome input input) := by
  have regular (link : Link) (p : Pattern Link) (h : Json.definitions o link = .defined p) :
      p.Regular := regular_definitions h
  cases k with
  | string =>
    cases he
    -- The entry point for strings has no grammar, but strings refer to no rule.
    have closed : (stringFor o).Closed := regular_stringFor o
    have here : (stringFor o).Answers (Json.definitions o) t v := by
      rw [stringFor_eq]
      exact ha
    have alone : (stringFor o).Answers (Matcher.scope ⟨stringFor o, .empty⟩).definitions t v :=
      closed.answers regular here
    have matcher : (if o.strictStrings then Entry.strictString else .string).matcher o false =
        .ok ⟨stringFor o, .empty⟩ := by
      rw [stringFor]
      split <;> rfl
    exact Entry.recognize_of_answers matcher alone hi
  | number =>
    cases he
    have closed : (Json.number : Pattern Link).Closed := regular_number
    have alone : Json.number.Answers (Matcher.scope ⟨Json.number, .empty⟩).definitions t v :=
      closed.answers regular ha
    exact Entry.recognize_of_answers rfl alone hi
  | list b =>
    cases he
    have list : (Start.compound b).pattern o |>.Answers (Json.definitions o) t v :=
      ha.refer ((defines_finished o).list rfl)
    exact recognize_eq list hi
  | literal text => cases he

end Kind

/-- The choice that a value starts like decides about it, if it commits. -/
lemma answers_valueOf {lists : Bracket → Pattern Link} (hk : k ∈ kinds o) (hc : c ∈ t.head?)
    (start : k.Starts c)
    (declines : ∀ b : Bracket, b.opening ∉ t.head? → (lists b).Declines definitions t)
    (ha : (k.pattern o lists).Answers definitions t v) (commits : v.Commits) :
    (valueOf o (lists .curly) (lists .square)).Answers definitions t v := by
  rcases exists_choice o declines with
    ⟨k', hk', c', hc', start', ps, qs, split, before, behind⟩ | ⟨none, _⟩
  · cases Option.mem_unique hc hc'
    cases start'.unique hk' hk start
    have chosen : (Pattern.firstOf (choices o lists ++ literalsFor o)).Answers definitions t v := by
      rw [split]
      exact Pattern.commits_firstOf before ha commits behind
    have labelled := chosen.label "expected a JSON value"
    rw [commits.labelled] at labelled
    rw [valueOf, stringFor_eq]
    exact labelled
  · exact absurd start (none k hk c hc)

/-- Where no choice gets beyond the start, the value is refused there, in words of its own. -/
lemma refuses_valueOf {lists : Bracket → Pattern Link}
    (declines : ∀ k ∈ kinds o, (k.pattern o lists).Declines definitions t) :
    (valueOf o (lists .curly) (lists .square)).Answers definitions t
      (.refused { cause := .stated "expected a JSON value" }) := by
  have all : ∀ p ∈ choices o lists ++ literalsFor o, p.Declines definitions t := by
    rw [choices_eq]
    exact List.forall_mem_map.2 declines
  rw [valueOf, stringFor_eq]
  exact (Pattern.declines_firstOf all).label "expected a JSON value"

/-- A list declines where its bracket does not open. -/
lemma declines_listLink {b : Bracket} (h : b.opening ∉ t.head?) :
    (listLink b).Declines (Json.definitions o) t :=
  (declines_list h).refer ((defines_finished o).list rfl)

/-- Values come to the outcome of their definition. -/
lemma recognize_valueOf
    (ha : (valueOf o (listLink .curly) (listLink .square)).Answers (Json.definitions o) t v)
    (hi : input.Spells t) : recognize o .value false input = .ok (v.outcome input input) := by
  have value : (Start.value.pattern o).Answers (Json.definitions o) t v :=
    ha.refer ((defines_finished o _).1 rfl)
  exact recognize_eq value hi

/-- A value that starts like one of a kind comes to the outcome of that kind. -/
lemma recognize_of_starts (he : k.entry? o = some entry) (hc : c ∈ t.head?) (start : k.Starts c)
    (hi : input.Spells t) :
    recognize o .value false input = recognize o entry false input := by
  obtain ⟨v, ha, commits⟩ := Kind.exists_commits (defines_finished o) he hc start
  have chosen : (k.pattern o listLink).Answers (Json.definitions o) t v :=
    Kind.answers_listLink (defines_finished o) ha
  have value := answers_valueOf (Kind.mem_kinds he) hc start (fun b => declines_listLink) chosen
    commits
  rw [recognize_valueOf value hi, Kind.recognize_entry he ha hi]

/-- A literal word is matched where literals are enabled. -/
lemma recognize_literal {word r : List Char} (enabled : o.literals = true)
    (hw : word ∈ literalWords) (hi : input.Spells (word ++ r)) :
    recognize o .value false input = .ok ((Verdict.taken word r).outcome input input) := by
  obtain ⟨text, hk, rfl⟩ := Kind.exists_literal enabled hw
  obtain ⟨c, next, rest, split⟩ := Kind.exists_cons_of_mem hk
  have hc : c ∈ (text.toList ++ r).head? := by
    rw [split]
    rfl
  have start : Kind.Starts c (.literal text) := by
    rw [Kind.Starts, split]
    rfl
  have literal : ((Kind.literal text).pattern o listLink).Answers (Json.definitions o)
      (text.toList ++ r) (.taken text.toList r) := Pattern.answers_literal text r
  exact recognize_valueOf
    (answers_valueOf hk hc start (fun b => declines_listLink) literal trivial) hi

/-- All choices decline where neither a string, a number or a list starts nor a literal stands. -/
lemma recognize_of_not_starts
    (other : ∀ k entry, Kind.entry? o k = some entry → ∀ c ∈ t.head?, ¬ k.Starts c)
    (literal : o.literals = true → ∀ word ∈ literalWords, ¬ word <+: t) (hi : input.Spells t) :
    recognize o .value false input =
      .ok (.rejected { cause := .stated "expected a JSON value" }) := by
  have declines (k : Kind) (hk : k ∈ kinds o) :
      (k.pattern o listLink).Declines (Json.definitions o) t := by
    cases k with
    | literal text =>
      obtain ⟨enabled, word⟩ := Kind.word_of_mem hk
      exact Pattern.declines_literal (literal enabled _ word)
    | _ => exact Kind.declines hk (other _ _ rfl) fun b => declines_listLink
  rw [recognize_valueOf (refuses_valueOf declines) hi, Verdict.outcome_self_refused]

/-- A value always comes to an outcome: that of the string pattern in force if the text starts with
a quote, that of the pattern of numbers if it starts with a minus sign or a digit, and that of the
rule of objects or arrays if it starts with their opening bracket. A literal is taken if literals
are in force. Anything else is refused at its start. -/
theorem recognize_value (o : Options) (hi : input.Spells t) :
    (∃ out, recognize o .value false input = .ok out) ∧
    ('"' ∈ t.head? → recognize o .value false input =
      recognize o (if o.strictStrings then .strictString else .string) false input) ∧
    ((∃ c ∈ t.head?, c = '-' ∨ CharClass.digit.accepts c = true) →
      recognize o .value false input = recognize o .number false input) ∧
    ('\x7b' ∈ t.head? → recognize o .value false input = recognize o .object false input) ∧
    ('[' ∈ t.head? → recognize o .value false input = recognize o .array false input) ∧
    (∀ word r, o.literals = true → word ∈ literalWords → t = word ++ r →
      ∃ consumed remainder, recognize o .value false input = .ok (.matched consumed remainder) ∧
        input.splitAt? (byteLength word) = some (consumed, remainder) ∧
        consumed.Spells word ∧ remainder.Spells r) ∧
    ((∀ c ∈ t.head?, c ≠ '"' ∧ c ≠ '-' ∧ CharClass.digit.accepts c = false ∧ c ≠ '\x7b' ∧
        c ≠ '[') →
      (o.literals = true → ∀ word ∈ literalWords, ¬ word <+: t) →
      recognize o .value false input = .ok (.rejected
        { cause := .stated "expected a JSON value", offset := 0, context := none })) := by
  refine ⟨?_, fun quote => ?_, fun ⟨c, hc, start⟩ => ?_, fun curly => ?_, fun square => ?_,
    fun word r enabled hw split => ?_, fun other literal => ?_⟩
  -- Each entry point is that of a kind, told by the first character.
  · obtain ⟨v, ha, _⟩ := Start.value.exists_answers o t
    exact ⟨_, recognize_eq ha hi⟩
  · exact recognize_of_starts (k := .string) rfl quote rfl hi
  · exact recognize_of_starts (k := .number) rfl hc start hi
  · exact recognize_of_starts (k := .list .curly) rfl curly rfl hi
  · exact recognize_of_starts (k := .list .square) rfl square rfl hi
  · subst split
    obtain ⟨consumed, remainder, cut, consumes, remains⟩ := hi.splitAt?_eq
    refine ⟨consumed, remainder, ?_, cut, consumes, remains⟩
    rw [recognize_literal enabled hw hi, Verdict.outcome_self_taken, Outcome.split, cut]
  · refine recognize_of_not_starts (fun k entry he c hc start => ?_) literal hi
    obtain ⟨quote, minus, digit, curly, square⟩ := other c hc
    -- A kind with an entry point starts with one of the characters that are ruled out.
    cases k with
    | string => exact quote start
    | number =>
      rcases start with rfl | numeric
      · exact minus rfl
      · cases digit.symm.trans numeric
    | list b =>
      cases b with
      | square => exact square start
      | curly => exact curly start
    | literal text => cases he

/-- A list in which a string breaks off is refused as by its own rule. Without literals in force,
`null` is no value. -/
theorem recognize_value_unclosed :
    (Slice.whole 0 ['[', '"']).Spells ['[', '"'] ∧
    recognize {} .value false (.whole 0 ['[', '"']) =
      recognize {} .array false (.whole 0 ['[', '"']) ∧
    recognize {} .value false (.whole 0 ['n', 'u', 'l', 'l']) = .ok (.rejected
      { cause := .stated "expected a JSON value", offset := 0, context := none }) := by
  have unclosed := Slice.spells_whole 0 ['[', '"']
  have null := Slice.spells_whole 0 ['n', 'u', 'l', 'l']
  refine ⟨unclosed, (recognize_value {} unclosed).2.2.2.2.1 rfl, ?_⟩
  refine (recognize_value {} null).2.2.2.2.2.2 ?_ nofun
  rintro _ ⟨⟩
  decide

end Recognizer.Json
