import Recognizer.Proofs.Json.Strings

/-!
# Strict strings

A strict string has no raw characters up to U+001F. The two patterns for strings go through the
same units until the first such character comes (`Inside.narrows`): it can only stand where a plain
character may, since no escape has one and none is part of an escape that breaks off.
-/

namespace Recognizer.Json

open Text

variable {as bs cs part seen : List Char} {cause : Cause} {v w : Verdict}

/-- The part of a text that a verdict is about: what is taken, or what comes before the place where
the text is refused. -/
def Sees (seen : List Char) : Verdict → Prop
  | .taken as _ => as = seen
  | .refused e => e.offset = byteLength seen

/-- What is seen behind `as` is seen with `as` before it. -/
lemma Sees.behind (h : Sees seen v) (as : List Char) :
    Sees (as ++ seen) (v.behind as) := by
  cases v with
  | taken xs bs => exact congrArg (as ++ ·) h
  | refused e =>
    show e.offset + byteLength as = byteLength (as ++ seen)
    rw [show e.offset = byteLength seen from h, byteLength_append, Nat.add_comm]

/-- The verdict `w` is `v` unless there is a character up to U+001F in the part of the text that `v`
is about; it then refuses the text at the first one. -/
inductive Narrows : List Char → Verdict → Verdict → Prop where
  | same (seen rest : List Char) {v : Verdict} : Sees seen v → (∀ d ∈ seen, '\x1f' < d) →
    Narrows (seen ++ rest) v v
  | control (seen rest : List Char) {v : Verdict} {e : Rejection} :
    Sees seen v → (∃ d ∈ seen, d ≤ '\x1f') →
    e.offset = byteLength (seen.takeWhile ('\x1f' < ·)) → Narrows (seen ++ rest) v (.refused e)

namespace Narrows

/-- A verdict sees a leading part of the text. -/
lemma exists_seen (h : Narrows cs v w) : ∃ seen rest, cs = seen ++ rest ∧ Sees seen v := by
  cases h with
  | same seen rest sees => exact ⟨seen, rest, rfl, sees⟩
  | control seen rest sees => exact ⟨seen, rest, rfl, sees⟩

/-- Characters beyond U+001F may come before. -/
lemma behind (h : Narrows cs v w) (clean : ∀ d ∈ as, '\x1f' < d) :
    Narrows (as ++ cs) (v.behind as) (w.behind as) := by
  cases h with
  | same seen rest sees all =>
    rw [← List.append_assoc]
    exact .same _ rest (sees.behind as) (List.forall_mem_append.2 ⟨clean, all⟩)
  | control seen rest sees some offset =>
    obtain ⟨d, hd, control⟩ := some
    rw [← List.append_assoc]
    refine .control _ rest (sees.behind as) ⟨d, List.mem_append_right as hd, control⟩ ?_
    rw [List.takeWhile_append_of_pos (by simpa using clean), byteLength_append, ← offset,
      Nat.add_comm]
    rfl

/-- A context makes no difference to that. -/
lemma within (h : Narrows cs v w) (name : String) :
    Narrows cs (v.mapRejection (·.within name)) (w.mapRejection (·.within name)) := by
  have sees {seen : List Char} {v : Verdict} (h : Sees seen v) :
      Sees seen (v.mapRejection (·.within name)) := by
    cases v with
    | taken as bs => exact h
    | refused e => exact h
  cases h with
  | same seen rest hs all => exact .same seen rest (sees hs) all
  | control seen rest hs some offset => exact .control seen rest (sees hs) some offset

end Narrows

/-- The letters of escapes are no control characters. -/
lemma lt_of_escapeLetter {c : Char} (h : CharClass.escapeLetter.accepts c = true) :
    '\x1f' < c := by
  have letter := mem_of_escapeLetter h
  simp only [List.mem_cons, List.not_mem_nil, or_false] at letter
  rcases letter with rfl | rfl | rfl | rfl | rfl | rfl | rfl | rfl <;> decide

/-- Nor are hexadecimal digits. -/
lemma lt_of_hexDigit {c : Char} (h : CharClass.hexDigit.accepts c = true) : '\x1f' < c := by
  simp only [CharClass.accepts, Bool.or_eq_true, Bool.and_eq_true, decide_eq_true_eq] at h
  rcases h with (h | h) | h
  · exact Nat.lt_of_lt_of_le (by decide : '\x1f'.toNat < '0'.toNat) h.1
  · exact Nat.lt_of_lt_of_le (by decide : '\x1f'.toNat < 'a'.toNat) h.1
  · exact Nat.lt_of_lt_of_le (by decide : '\x1f'.toNat < 'A'.toNat) h.1

/-- Nor is anything in a numbered escape. -/
lemma forall_lt_of_hexDigits (h : ∀ c ∈ as, CharClass.hexDigit.accepts c = true) :
    ∀ d ∈ '\\' :: 'u' :: as, '\x1f' < d := by
  simp only [List.forall_mem_cons]
  exact ⟨by decide, by decide, fun d hd => lt_of_hexDigit (h d hd)⟩

/-- Nor in any escape. -/
lemma IsEscape.forall_lt (h : IsEscape as) : ∀ d ∈ as, '\x1f' < d := by
  cases h with
  | letter letter =>
    simp only [List.forall_mem_cons]
    exact ⟨by decide, lt_of_escapeLetter letter, nofun⟩
  | unicode _ all => exact forall_lt_of_hexDigits all

/-- Nor in an escape that breaks off. -/
lemma BreaksOff.forall_lt (h : BreaksOff part bs cause) : ∀ d ∈ part, '\x1f' < d := by
  cases h with
  | ended => exact nofun
  | letter => exact List.forall_mem_singleton.2 (by decide)
  | unicode _ all _ => exact forall_lt_of_hexDigits all

/-- Strict strings have the same plain characters, without the control characters. -/
lemma unescaped_eq (c : Char) :
    CharClass.unescaped.accepts c = (CharClass.plain.accepts c && decide ('\x1f' < c)) :=
  rfl

/-- Strict strings go through the same units up to the first character that they do not have. -/
lemma Inside.narrows (h : Inside .plain cs v) :
    ∃ w, Inside .unescaped cs w ∧ Narrows cs v w := by
  induction h with
  | closed bs =>
    have quote : ∀ d ∈ ['"'], '\x1f' < d := List.forall_mem_singleton.2 (by decide)
    exact ⟨_, .closed bs, .same ['"'] bs rfl quote⟩
  | @plain c cs v plain inside ih =>
    obtain ⟨w, inside, narrows⟩ := ih
    by_cases beyond : '\x1f' < c
    · have unescaped : CharClass.unescaped.accepts c = true := by simp [unescaped_eq, plain, beyond]
      exact ⟨_, .plain unescaped inside, narrows.behind (List.forall_mem_singleton.2 beyond)⟩
    · -- The character is refused where the other pattern goes on.
      have control : CharClass.unescaped.accepts c = false := by simp [unescaped_eq, beyond]
      have quote : c ≠ '"' := CharClass.ne_of_accepts plain rfl
      have backslash : c ≠ '\\' := CharClass.ne_of_accepts plain rfl
      obtain ⟨seen, rest, rfl, sees⟩ := narrows.exists_seen
      refine ⟨_, .raw _ quote backslash control, ?_⟩
      refine .control (c :: seen) rest (sees.behind [c])
        ⟨c, List.mem_cons_self, Char.not_lt.1 beyond⟩ ?_
      simp [beyond]
  | escaped escape _ ih =>
    obtain ⟨w, inside, narrows⟩ := ih
    exact ⟨_, .escaped escape inside, narrows.behind escape.forall_lt⟩
  | @broken part rest cause broken =>
    exact ⟨_, .broken broken, .same part rest rfl broken.forall_lt⟩
  | raw cs quote backslash other => cases other.symm.trans (accepts_plain quote backslash)

/-- Each text is answered by both patterns, and alike up to such a character. -/
lemma exists_narrows {ρ : Type} (definitions : ρ → Resolution ρ) (t : List Char) :
    ∃ v w, (string : Pattern ρ).Answers definitions t v ∧
      (strictString : Pattern ρ).Answers definitions t w ∧ Narrows t v w := by
  by_cases quote : '"' ∈ t.head?
  · obtain ⟨cs, rfl⟩ := List.head?_eq_some_iff.1 quote
    obtain ⟨v, inside⟩ := exists_inside .plain cs
    obtain ⟨w, inside', narrows⟩ := inside.narrows
    have beyond : ∀ d ∈ ['"'], '\x1f' < d := List.forall_mem_singleton.2 (by decide)
    exact ⟨_, _, answers_stringOf (o := {}) inside, answers_stringOf (o := .rfc8259) inside',
      (narrows.behind beyond).within "string"⟩
  · exact ⟨_, _, refuses_stringOf .plain quote, refuses_stringOf .unescaped quote,
      .same [] t rfl nofun⟩

/-- Strict strings are the strings without raw characters up to U+001F. A text with such a character
in its string, or before the place where it is refused anyway, is refused at the first one; where
there is none, the rejection is the same. -/
theorem parse_strictString (o : Options) (t : List Char) :
    (∀ c r, Entry.strictString.parse o t = .ok (.taken c r) ↔
      Entry.string.parse o t = .ok (.taken c r) ∧ ∀ d ∈ c, '\x1f' < d) ∧
    (∀ c r, Entry.string.parse o t = .ok (.taken c r) → (∃ d ∈ c, d ≤ '\x1f') →
      ∃ e, Entry.strictString.parse o t = .ok (.refused e) ∧
        e.offset = byteLength (c.takeWhile ('\x1f' < ·))) ∧
    (∀ e, Entry.string.parse o t = .ok (.refused e) →
      ∃ pre rest, t = pre ++ rest ∧ e.offset = byteLength pre ∧
        ((∀ d ∈ pre, '\x1f' < d) → Entry.strictString.parse o t = .ok (.refused e)) ∧
        ((∃ d ∈ pre, d ≤ '\x1f') → ∃ e', Entry.strictString.parse o t = .ok (.refused e') ∧
          e'.offset = byteLength (pre.takeWhile ('\x1f' < ·)))) := by
  obtain ⟨v, w, ha, hb, narrows⟩ :=
    exists_narrows (Matcher.scope ⟨string, .empty⟩).definitions t
  have loose : Entry.string.parse o t = .ok v := Entry.parse_of_answers rfl ha
  have strict : Entry.strictString.parse o t = .ok w := Entry.parse_of_answers rfl hb
  have clash {seen : List Char} (all : ∀ d ∈ seen, '\x1f' < d) : ¬ ∃ d ∈ seen, d ≤ '\x1f' :=
    fun ⟨d, hd, le⟩ => Char.not_lt.2 le (all d hd)
  rw [loose, strict]
  -- Either both patterns say the same, or the strict one stops at the first control character.
  cases narrows with
  | same seen rest sees all =>
    refine ⟨fun c r => ⟨?_, And.left⟩, ?_, ?_⟩
    · rintro ⟨⟩
      cases sees
      exact ⟨rfl, all⟩
    · rintro c r ⟨⟩ some
      cases sees
      exact absurd some (clash all)
    · rintro e ⟨⟩
      exact ⟨seen, rest, rfl, sees, fun _ => rfl, fun some => absurd some (clash all)⟩
  | @control seen rest _ e sees some offset =>
    refine ⟨fun c r => ⟨nofun, ?_⟩, ?_, ?_⟩
    · rintro ⟨⟨⟩, all⟩
      cases sees
      exact absurd some (clash all)
    · rintro c r ⟨⟩ -
      cases sees
      exact ⟨e, rfl, offset⟩
    · rintro e' ⟨⟩
      exact ⟨seen, rest, rfl, sees, fun all => absurd some (clash all), fun _ => ⟨e, rfl, offset⟩⟩

/-- A raw tab in a string is refused where it stands. -/
theorem parse_strictString_tab :
    Entry.string.parse {} ['"', '\t', '"'] = .ok (.taken ['"', '\t', '"'] []) ∧
    (∃ d ∈ ['"', '\t', '"'], d ≤ '\x1f') ∧
    ∃ e, Entry.strictString.parse {} ['"', '\t', '"'] = .ok (.refused e) ∧
      e.offset = byteLength (['"', '\t', '"'].takeWhile ('\x1f' < ·)) := by
  have inside : Inside .plain ['\t', '"'] (.taken ['\t', '"'] []) := .plain rfl (.closed [])
  have taken : Entry.string.parse {} ['"', '\t', '"'] = .ok (.taken ['"', '\t', '"'] []) :=
    Entry.parse_of_answers rfl (answers_stringOf (o := {}) inside)
  have tab : ∃ d ∈ ['"', '\t', '"'], d ≤ '\x1f' := ⟨'\t', by decide, by decide⟩
  exact ⟨taken, tab, (parse_strictString {} ['"', '\t', '"']).2.1 _ [] taken tab⟩

end Recognizer.Json
