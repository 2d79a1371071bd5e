import Recognizer.Proofs.Json.Numbers
import Recognizer.Proofs.Json.Strings

/-!
# What is taken and what comes behind it

An entry point takes a part of a text that is of its language, on condition that the rest does not
go on with it (`Entry.parse_eq_taken_iff`). Nothing goes on with a string or a list, so these are
taken whatever comes behind them, and no text that breaks off in one is taken. Where no rest is
left, nothing goes on, so what is taken is taken again on its own (`parse_again`).
-/

namespace Recognizer.Json

variable {o : Options} {entry : Entry} {c r t : List Char}

/-- The entry point takes `c` where `r` comes behind it. -/
def Entry.Takes (o : Options) : Entry → List Char → List Char → Prop
  | number, c, r => IsNumber c ∧ NumberEnds c r
  | string, c, _ => IsString .plain c
  | strictString, c, _ => IsString .unescaped c
  | whitespace, c, r => IsBlank c ∧ Unblank r
  | value, c, r => Start.value.Accepts o c r
  | object, c, r => (Start.compound .curly).Accepts o c r
  | array, c, r => (Start.compound .square).Accepts o c r
  | document, c, r => Start.document.Accepts o c r

/-- The verdict takes what the entry point takes of the text, and nothing else. -/
def Entry.Decides (o : Options) (entry : Entry) (t : List Char) (v : Verdict) : Prop :=
  ∀ c r, v = .taken c r ↔ t = c ++ r ∧ entry.Takes o c r

/-- The number entry point decides every text. -/
lemma exists_parse_number (o : Options) (t : List Char) :
    ∃ v, Entry.number.parse o t = .ok v ∧ Entry.number.Decides o t v := by
  obtain ⟨v, ha, result⟩ := exists_answers_number (Matcher.scope ⟨number, .empty⟩).definitions t
  refine ⟨v, Entry.parse_of_answers rfl ha, fun c r => ?_⟩
  rw [isToken_number.eq_taken_iff result, Entry.Takes]
  exact and_congr_right fun _ => and_congr_right fun number => imp_iff_right number

/-- Nothing goes on with a string, so it does not matter what comes behind it. -/
lemma exists_parse_stringOf (o strings : Options) (unnamed : strings.literals = false)
    (hm : entry.matcher o false = .ok ⟨stringOf strings.plain, .empty⟩) (t : List Char) :
    ∃ v, entry.parse o t = .ok v ∧
      ∀ c r, v = .taken c r ↔ t = c ++ r ∧ IsString strings.plain c := by
  obtain ⟨v, ha, result⟩ := exists_answers_string unnamed
    (Matcher.scope ⟨stringOf strings.plain, .empty⟩).definitions t
  refine ⟨v, Entry.parse_of_answers hm ha, fun c r => ?_⟩
  rw [(isToken_string unnamed).eq_taken_iff result]
  refine and_congr_right fun _ => and_iff_left_of_imp fun string => ?_
  exact fun number => absurd number string.not_isNumber

/-- So does the one for whitespace. -/
lemma exists_parse_whitespace (o : Options) (t : List Char) :
    ∃ v, Entry.whitespace.parse o t = .ok v ∧ Entry.whitespace.Decides o t v := by
  obtain ⟨w, bs, rfl, hw, hbs, ha⟩ :=
    exists_blank (Matcher.scope ⟨whitespace, .empty⟩).definitions t
  refine ⟨_, Entry.parse_of_answers rfl ha, fun c r => ⟨?_, ?_⟩⟩
  · rintro ⟨⟩
    exact ⟨rfl, hw, hbs⟩
  · rintro ⟨split, hc, hr⟩
    obtain rfl := eq_of_blank_append hw hc hbs hr split
    rw [List.append_cancel_right split]

/-- And those with a grammar. -/
lemma Start.exists_parse (o : Options) (start : Start) (t : List Char) :
    ∃ v, start.entry.parse o t = .ok v ∧
      ∀ c r, v = .taken c r ↔ t = c ++ r ∧ start.Accepts o c r := by
  obtain ⟨v, parsed, _⟩ := start.exists_result o t
  refine ⟨v, parsed, fun c r => ?_⟩
  rw [← parse_eq_taken, parsed, Except.ok.injEq]

/-- Every text comes to a verdict. -/
lemma Entry.exists_parse (o : Options) (entry : Entry) (t : List Char) :
    ∃ v, entry.parse o t = .ok v ∧ entry.Decides o t v := by
  cases entry with
  | number => exact exists_parse_number o t
  | string => exact exists_parse_stringOf o {} rfl rfl t
  | strictString => exact exists_parse_stringOf o { strictStrings := true } rfl rfl t
  | whitespace => exact exists_parse_whitespace o t
  | value => exact Start.value.exists_parse o t
  | object => exact (Start.compound .curly).exists_parse o t
  | array => exact (Start.compound .square).exists_parse o t
  | document => exact Start.document.exists_parse o t

/-- An entry point takes what it decides to take. -/
lemma Entry.parse_eq_taken_iff :
    entry.parse o t = .ok (.taken c r) ↔ t = c ++ r ∧ entry.Takes o c r := by
  obtain ⟨v, parsed, decides⟩ := entry.exists_parse o t
  rw [parsed, Except.ok.injEq, decides]

/-- Where nothing comes behind it a number has ended. -/
lemma numberEnds_nil (number : List Char) : NumberEnds number [] :=
  ⟨nofun, nofun, fun h => h.elim nofun nofun⟩

/-- What is taken is also taken where nothing comes behind it. -/
lemma Entry.Takes.alone (h : entry.Takes o c r) : entry.Takes o c [] := by
  cases entry with
  | number => exact ⟨h.1, numberEnds_nil c⟩
  | whitespace => exact ⟨h.1, nofun⟩
  | value => exact ⟨h.1, fun _ => numberEnds_nil c⟩
  | document => exact ⟨h.1, rfl⟩
  | string | strictString | object | array => exact h

/-- The entry points whose texts have an end of their own. -/
def Entry.delimited : List Entry :=
  [.object, .array, .string, .strictString]

/-- Nothing goes on with a text that has an end of its own. -/
lemma Entry.Takes.before (delimited : entry ∈ Entry.delimited) (h : entry.Takes o c r)
    (r' : List Char) : entry.Takes o c r' := by
  simp only [Entry.delimited, List.mem_cons, List.not_mem_nil, or_false] at delimited
  rcases delimited with rfl | rfl | rfl | rfl <;> exact h

/-- A part of a text with an end of its own is taken whatever comes behind it. -/
lemma Entry.parse_append (delimited : entry ∈ Entry.delimited)
    (h : entry.parse o t = .ok (.taken c r)) (rest : List Char) :
    entry.parse o (t ++ rest) = .ok (.taken c (r ++ rest)) := by
  obtain ⟨rfl, takes⟩ := parse_eq_taken_iff.1 h
  exact parse_eq_taken_iff.2 ⟨List.append_assoc c r rest, takes.before delimited _⟩

/-- If a text with an end of its own is taken as a whole, none is taken that breaks off in it. -/
lemma Entry.refused_of_isPrefix {pre : List Char} (delimited : entry ∈ Entry.delimited)
    (h : entry.parse o t = .ok (.taken t [])) (hp : pre <+: t) (proper : pre ≠ t) :
    ∃ e, entry.parse o pre = .ok (.refused e) := by
  obtain ⟨v, parsed, _⟩ := entry.exists_parse o pre
  cases v with
  | refused e => exact ⟨e, parsed⟩
  | taken c r =>
    obtain ⟨rest, rfl⟩ := hp
    have again := parse_append delimited parsed rest
    have same : Verdict.taken (pre ++ rest) [] = .taken c (r ++ rest) :=
      Except.ok.inj (h.symm.trans again)
    obtain ⟨_, nothing⟩ := Verdict.taken.inj same
    obtain ⟨_, rfl⟩ := List.append_eq_nil_iff.1 nothing.symm
    exact absurd (List.append_nil pre).symm proper

/-- Objects, arrays and strings of both kinds are delimited by themselves: one that is a whole text
is taken in the same way whatever comes behind it, and every proper leading part of it is refused.
Whatever an entry point takes at the start of a text, it takes again as a text of its own. -/
theorem parse_again (o : Options) :
    (∀ entry ∈ Entry.delimited, ∀ t, entry.parse o t = .ok (.taken t []) →
      (∀ r, entry.parse o (t ++ r) = .ok (.taken t r)) ∧
      ∀ pre, pre <+: t → pre ≠ t → ∃ e, entry.parse o pre = .ok (.refused e)) ∧
    ∀ entry t c r, Entry.parse o entry t = .ok (.taken c r) →
      entry.parse o c = .ok (.taken c []) := by
  refine ⟨fun entry delimited t h => ⟨?_, ?_⟩, fun entry t c r h => ?_⟩
  · exact fun r => Entry.parse_append delimited h r
  · exact fun pre hp proper => Entry.refused_of_isPrefix delimited h hp proper
  · obtain ⟨_, takes⟩ := Entry.parse_eq_taken_iff.1 h
    exact Entry.parse_eq_taken_iff.2 ⟨(List.append_nil c).symm, takes.alone⟩

/-- An empty array, and a number with a bracket behind it. -/
theorem parse_again_array :
    Entry.array.parse {} ['[', ']'] = .ok (.taken ['[', ']'] []) ∧
    Entry.array.parse {} ['[', ']', ']'] = .ok (.taken ['[', ']'] [']']) ∧
    (∃ e, Entry.array.parse {} ['['] = .ok (.refused e)) ∧
    Entry.number.parse {} ['1', ']'] = .ok (.taken ['1'] [']']) ∧
    Entry.number.parse {} ['1'] = .ok (.taken ['1'] []) := by
  have empty : Generates {} (.compound .square) ['[', ']'] := .empty .square isBlank_nil
  have whole : Entry.array.parse {} ['[', ']'] = .ok (.taken ['[', ']'] []) :=
    Entry.parse_eq_taken_iff.2 ⟨rfl, empty⟩
  have digit : IsInteger ['1'] := .digits rfl nofun
  have one : IsNumber ['1'] := .intro .absent digit .absent .absent
  have ends : NumberEnds ['1'] [']'] := by
    refine ⟨?_, by simp, by simp⟩
    rintro _ ⟨⟩ digit
    exact absurd digit (by decide)
  have number : Entry.number.parse {} ['1', ']'] = .ok (.taken ['1'] [']']) :=
    Entry.parse_eq_taken_iff.2 ⟨rfl, one, ends⟩
  obtain ⟨delimited, again⟩ := parse_again {}
  obtain ⟨behind, before⟩ := delimited .array (by simp [Entry.delimited]) _ whole
  exact ⟨whole, behind [']'], before ['['] ⟨[']'], rfl⟩ (by simp), number, again _ _ _ _ number⟩

end Recognizer.Json
