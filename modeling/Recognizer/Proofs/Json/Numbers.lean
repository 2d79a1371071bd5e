import Recognizer.Proofs.Json.Regular
import Recognizer.Proofs.Json.Tokens
import Recognizer.Proofs.Pattern.Contexts

/-!
# Numbers

As an entry point, the pattern of numbers takes a number that the rest does not go on with
(`parse_number`). Behind a point or an exponent mark it is committed, so what it refuses may well
have a number at the start.
-/

namespace Recognizer.Json

open Text Position

variable {ρ : Type} {o : Options} {s t : List Char} {d : Char}

/-- Some number starts so. -/
lemma StartsNumber.exists_number (h : StartsNumber d) : ∃ s, IsNumber (d :: s) := by
  rcases h with rfl | digit
  · exact ⟨['0'], .intro .present .zero .absent .absent⟩
  · refine ⟨[], ?_⟩
    by_cases zero : d = '0'
    · subst zero
      exact .intro .absent .zero .absent .absent
    · have integer : IsInteger [d] := .digits (CharClass.nonzeroDigit_of_digit digit zero) nofun
      exact .intro .absent integer .absent .absent

/-- A value that starts like a number is one. -/
lemma Generates.isNumber (h : Generates o .value s) (hd : d ∈ s.head?) (start : StartsNumber d) :
    IsNumber s :=
  h.derives (k := .number) (by simp [kinds]) hd start

/-- Numbers are tokens: positions follow them from their first character. -/
lemma isToken_number : IsToken {} IsNumber StartsNumber where
  unnamed := rfl
  inhabited := ⟨['0'], .intro .absent .zero .absent .absent⟩
  begins _ := StartsNumber.exists_number
  head _ := IsNumber.head
  isValue _ := .number
  ofValue _ _ := Generates.isNumber

/-- There is no context in a number but the one around it. -/
lemma contexts_number : (number : Pattern ρ).contexts = ["number"] := rfl

/-- Every text has a verdict by the number rule, and it is the right one. -/
lemma exists_answers_number (definitions : Link → Resolution Link) (t : List Char) :
    ∃ v, number.Answers definitions t v ∧ TokenResult IsNumber t v := by
  refine isToken_number.exists_result ?_ declines_number_of_not_starts
  rintro d ds rfl start
  exact follows_value_number start fun c _ => step_value (fun _ => rfl) nofun

/-- Numbers are taken if the rest does not go on with them. If there is none at the start of a text,
the text is refused where it stops to be the start of a number. -/
theorem parse_number (o : Options) (t : List Char) :
    (∀ c r, Entry.number.parse o t = .ok (.taken c r) ↔
      t = c ++ r ∧ IsNumber c ∧ NumberEnds c r) ∧
    ((¬ ∃ c r, t = c ++ r ∧ IsNumber c ∧ NumberEnds c r) →
      ∃ e pre, Entry.number.parse o t = .ok (.refused e) ∧ e.context = some "number" ∧
        IsLongestViable IsNumber t pre ∧ e.offset = byteLength pre) := by
  obtain ⟨v, ha, result⟩ := exists_answers_number (Matcher.scope ⟨number, .empty⟩).definitions t
  have parsed : Entry.number.parse o t = .ok v := Entry.parse_of_answers rfl ha
  rw [parsed]
  refine ⟨fun c r => ⟨?_, ?_⟩, fun none => ?_⟩
  · rintro ⟨⟩
    obtain ⟨split, number, ends⟩ := result
    exact ⟨split, number, ends number⟩
  · rintro ⟨rfl, number, ends⟩
    exact congrArg Except.ok (isToken_number.eq_taken result number fun _ => ends)
  · cases v with
    | taken c r =>
      obtain ⟨split, number, ends⟩ := result
      exact absurd ⟨c, r, split, number, ends number⟩ none
    | refused e =>
      obtain ⟨⟨pre, longest, offset⟩, _⟩ := result
      exact ⟨e, pre, rfl, ha.context_eq_some regular_number contexts_number, longest, offset⟩

/-- A number that breaks off behind the sign of its exponent is refused, though `1` is one. -/
theorem parse_number_sign :
    (¬ ∃ c r, ['1', 'e', '+'] = c ++ r ∧ IsNumber c ∧ NumberEnds c r) ∧
    ∃ e pre, Entry.number.parse {} ['1', 'e', '+'] = .ok (.refused e) ∧
      e.context = some "number" ∧ IsLongestViable IsNumber ['1', 'e', '+'] pre ∧
      e.offset = byteLength pre := by
  have none : ¬ ∃ c r, ['1', 'e', '+'] = c ++ r ∧ IsNumber c ∧ NumberEnds c r := by
    rintro ⟨c, r, split, number, numberEnds⟩
    have halts : (Position.value false []).Halts {} false ['1', 'e', '+'] [] (.number .sign []) :=
      ⟨rfl, nofun⟩
    have ends := isToken_number.ends_of_halts halts split number fun _ => numberEnds
    exact (waits_number rfl).not_ends ends
  exact ⟨none, (parse_number {} ['1', 'e', '+']).2 none⟩

end Recognizer.Json
