import Recognizer.Json.Entry
import Recognizer.Proofs.Grammar.Regular

/-!
# The JSON patterns are regular

So is every store that a JSON grammar has been added to (`Json.Entry.regular_prepare`).
-/

namespace Recognizer.Json

open Pattern

variable {ρ : Type} {good : ρ → Prop}

/-- Repetitions of a class are regular. -/
lemma regular_many (k : CharClass) : (ofClass k).many.RegularOver good :=
  .repeated 0 none (.satisfy k.accepts)

/-- Digits are regular. -/
lemma regular_digits : digits.RegularOver good :=
  .repeated 1 none (.satisfy _)

/-- Whitespace is regular. -/
lemma regular_whitespace : whitespace.RegularOver good :=
  regular_many .whitespace

/-- Integers are regular. -/
lemma regular_integer : integer.RegularOver good := by
  apply RegularOver.concat
  simp only [List.forall_mem_cons]
  refine ⟨.optional (.satisfy _), .firstOf ?_, by simp⟩
  simp only [List.forall_mem_cons]
  refine ⟨.satisfy _, .concat ?_, by simp⟩
  simp only [List.forall_mem_cons]
  exact ⟨.satisfy _, regular_many .digit, by simp⟩

/-- A choice of two characters is regular. -/
lemma regular_either (x y : Char) : (firstOf [.char x, .char y]).RegularOver good := by
  apply RegularOver.firstOf
  simp only [List.forall_mem_cons]
  exact ⟨.satisfy _, .satisfy _, by simp⟩

/-- Exponents are regular. -/
lemma regular_exponent : exponent.RegularOver good := by
  refine .implies (regular_either _ _) (.concat ?_)
  simp only [List.forall_mem_cons]
  exact ⟨.optional (regular_either _ _), regular_digits, by simp⟩

/-- Numbers are regular. -/
lemma regular_number : number.RegularOver good := by
  refine .context _ (.concat ?_)
  simp only [List.forall_mem_cons]
  exact ⟨regular_integer, .implies (.satisfy _) regular_digits, regular_exponent, by simp⟩

/-- Numbered escapes are regular. -/
lemma regular_hex : (concat [.char 'u', (ofClass .hexDigit).exactly 4]).RegularOver good := by
  apply RegularOver.concat
  simp only [List.forall_mem_cons]
  exact ⟨.satisfy _, .repeated _ _ (.satisfy _), by simp⟩

/-- All escapes are regular. -/
lemma regular_escape : escape.RegularOver good := by
  apply RegularOver.concat
  simp only [List.forall_mem_cons]
  refine ⟨.satisfy _, .label _ (.firstOf ?_), by simp⟩
  simp only [List.forall_mem_cons]
  exact ⟨.satisfy _, regular_hex, by simp⟩

/-- Strings are regular, whatever is plain in them. -/
lemma regular_stringOf (unquoted : CharClass) : (stringOf unquoted).RegularOver good := by
  have body : (firstOf [.ofClass unquoted, escape]).RegularOver good := by
    apply RegularOver.firstOf
    simp only [List.forall_mem_cons]
    exact ⟨.satisfy _, regular_escape, by simp⟩
  refine .context _ (.concat ?_)
  simp only [List.forall_mem_cons]
  exact ⟨.satisfy _, .scan (.satisfy _) body, by simp⟩

section Rules

variable {good : Link → Prop}

/-- So they are under either option. -/
lemma regular_stringFor (o : Options) : (stringFor o).RegularOver good := by
  rw [stringFor]
  split
  · exact regular_stringOf _
  · exact regular_stringOf _

/-- Commas are regular. -/
lemma regular_comma : comma.RegularOver good := by
  apply RegularOver.concat
  simp only [List.forall_mem_cons]
  exact ⟨regular_whitespace, .satisfy _, regular_whitespace, by simp⟩

/-- A list of regular items is regular. -/
lemma regular_bracketed (opening closing : Char) {item : Pattern Link}
    (hi : item.RegularOver good) : (bracketed opening closing item).RegularOver good := by
  have empty : (concat [whitespace, .char closing]).RegularOver good := by
    apply RegularOver.concat
    simp only [List.forall_mem_cons]
    exact ⟨regular_whitespace, .satisfy _, by simp⟩
  have filled : (concat [.separated item comma, .char closing]).RegularOver good := by
    apply RegularOver.concat
    simp only [List.forall_mem_cons]
    exact ⟨.series _ hi regular_comma, .satisfy _, by simp⟩
  apply RegularOver.concat
  simp only [List.forall_mem_cons]
  refine ⟨.satisfy _, .firstOf ?_, by simp⟩
  simp only [List.forall_mem_cons]
  exact ⟨empty, filled, by simp⟩

variable {value object array : Pattern Link}

/-- Objects of regular values are regular. -/
lemma regular_objectOf (o : Options) (hv : value.RegularOver good) :
    (objectOf o value).RegularOver good := by
  refine .context _ (regular_bracketed _ _ (.concat ?_))
  simp only [List.forall_mem_cons]
  exact ⟨regular_whitespace, regular_stringFor o, regular_whitespace, .satisfy _,
    regular_whitespace, hv, regular_whitespace, by simp⟩

/-- Arrays of regular values are regular. -/
lemma regular_arrayOf (hv : value.RegularOver good) : (arrayOf value).RegularOver good := by
  refine .context _ (regular_bracketed _ _ (.concat ?_))
  simp only [List.forall_mem_cons]
  exact ⟨regular_whitespace, hv, regular_whitespace, by simp⟩

/-- Values are regular if objects and arrays are. -/
lemma regular_valueOf (o : Options) (ho : object.RegularOver good) (ha : array.RegularOver good) :
    (valueOf o object array).RegularOver good := by
  refine .label _ (.firstOf ?_)
  rw [List.forall_mem_append]
  constructor
  · simp only [List.forall_mem_cons]
    exact ⟨regular_stringFor o, regular_number, ho, ha, by simp⟩
  · rw [literalsFor]
    split
    · simp only [List.forall_mem_cons]
      exact ⟨.literal _, .literal _, .literal _, by simp⟩
    · simp

/-- Documents of regular values are regular. -/
lemma regular_documentOf (o : Options) (hv : value.RegularOver good) :
    (documentOf o value).RegularOver good := by
  rw [documentOf]
  split
  · apply RegularOver.concat
    simp only [List.forall_mem_cons]
    exact ⟨regular_whitespace, hv, regular_whitespace, .endOfInput, by simp⟩
  · apply RegularOver.concat
    simp only [List.forall_mem_cons]
    exact ⟨hv, .endOfInput, by simp⟩

end Rules

/-- The grammar is regular, with the patterns of all its entry points. -/
lemma regular_build {o : Options} {s s' : Store} {patterns : Patterns} (hs : s.Regular)
    (h : build o s = .ok (patterns, s')) : s'.Regular ∧ patterns.value.Regular ∧
      patterns.object.Regular ∧ patterns.array.Regular ∧ patterns.document.Regular := by
  have regular := ((hs.newBuilder.declare s.newBuilder.1 "value").declare s.newBuilder.1
    "object").declare s.newBuilder.1 "array"
  obtain ⟨_, r, h⟩ := Except.bind_ok h
  obtain ⟨_, d, h⟩ := Except.bind_ok h
  replace regular := regular.define (regular_objectOf o (Store.regular_reference r)) d
  obtain ⟨_, r, h⟩ := Except.bind_ok h
  obtain ⟨_, d, h⟩ := Except.bind_ok h
  replace regular := regular.define (regular_arrayOf (Store.regular_reference r)) d
  obtain ⟨_, r, h⟩ := Except.bind_ok h
  obtain ⟨_, r', h⟩ := Except.bind_ok h
  obtain ⟨_, d, h⟩ := Except.bind_ok h
  replace regular := regular.define
    (regular_valueOf o (Store.regular_reference r) (Store.regular_reference r')) d
  obtain ⟨_, _, h⟩ := Except.bind_ok h
  obtain ⟨_, value, h⟩ := Except.bind_ok h
  obtain ⟨_, object, h⟩ := Except.bind_ok h
  obtain ⟨_, array, h⟩ := Except.bind_ok h
  cases h
  exact ⟨regular, Store.regular_rule value, Store.regular_rule object, Store.regular_rule array,
    regular_documentOf o (Store.regular_rule value)⟩

/-- An entry point is a regular pattern, and preparing it keeps the store regular. -/
theorem Entry.regular_prepare {o : Options} {s : Store} {entry : Entry} {m : Matcher}
    (hs : s.Regular) (h : entry.prepare o s = .ok m) : m.pattern.Regular ∧ m.store.Regular := by
  cases entry with
  | number =>
    cases h
    exact ⟨regular_number, hs⟩
  | string =>
    cases h
    exact ⟨regular_stringOf _, hs⟩
  | strictString =>
    cases h
    exact ⟨regular_stringOf _, hs⟩
  | whitespace =>
    cases h
    exact ⟨regular_whitespace, hs⟩
  | value =>
    obtain ⟨⟨patterns, s'⟩, hb, h⟩ := Except.bind_ok h
    cases h
    exact ⟨(regular_build hs hb).2.1, (regular_build hs hb).1⟩
  | object =>
    obtain ⟨⟨patterns, s'⟩, hb, h⟩ := Except.bind_ok h
    cases h
    exact ⟨(regular_build hs hb).2.2.1, (regular_build hs hb).1⟩
  | array =>
    obtain ⟨⟨patterns, s'⟩, hb, h⟩ := Except.bind_ok h
    cases h
    exact ⟨(regular_build hs hb).2.2.2.1, (regular_build hs hb).1⟩
  | document =>
    obtain ⟨⟨patterns, s'⟩, hb, h⟩ := Except.bind_ok h
    cases h
    exact ⟨(regular_build hs hb).2.2.2.2, (regular_build hs hb).1⟩

end Recognizer.Json
