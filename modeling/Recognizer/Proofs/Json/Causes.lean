import Recognizer.Json.Recognize
import Recognizer.Proofs.Json.Construction
import Recognizer.Proofs.Json.Resolutions
import Recognizer.Proofs.Pattern.Causes

/-!
# Why JSON texts are rejected

Seven wordings are all there is (`rejected_as_expected`). What can only go wrong inside the engine
never does: no loop of the grammar ends on an empty match or short of what it calls for, no
remainder is foreign, no cut falls inside a character, and the rules are there as long as the
pattern is.
-/

namespace Recognizer.Json

open Pattern

/-- The wordings of all rejections. -/
def expectedMessages : List String :=
  ["no input", "character mismatch", "no alternative matched", "expected a JSON value",
    "invalid escape sequence", "input ended before terminator", "unexpected trailing input"]

/-- The causes of all rejections. -/
def expectedCauses : List Cause :=
  [.noInput, .mismatch, .noAlternative, .stated "expected a JSON value",
    .stated "invalid escape sequence", .unterminated, .trailingInput]

/-- A rejection has one of the expected wordings, and no internal cause has the same. -/
def AsExpected : Outcome → Prop
  | .matched _ _ => True
  | .rejected e =>
    e.message ∈ expectedMessages ∧ ∀ cause : Cause, cause.Internal → e.message ≠ cause.message

/-- One of the expected causes. -/
def Expected (cause : Cause) : Prop :=
  cause ∈ expectedCauses

/-- A message that starts as none of the expected ones is not among them. -/
lemma not_mem_of_take_ne {a b : String}
    (h : ∀ c ∈ expectedMessages, c.toList.take a.toList.length ≠ a.toList) :
    a ++ b ∉ expectedMessages :=
  fun mem => append_ne_of_take_ne (h _ mem) rfl

/-- Internal causes have other wordings. -/
lemma message_not_mem {cause : Cause} (h : cause.Internal) :
    cause.message ∉ expectedMessages := by
  cases cause with
  | notABoundary => decide +kernel
  | foreignRemainder => decide +kernel
  | noProgress => decide +kernel
  | grammarDropped => decide +kernel
  | tooFewRepetitions min found =>
    change "expected at least " ++ toString min ++ " repetitions, found " ++ toString found ∉ _
    rw [String.append_assoc, String.append_assoc]
    exact not_mem_of_take_ne (by decide +kernel)
  | tooFewElements min found =>
    change "expected at least " ++ toString min ++ " elements, found " ++ toString found ∉ _
    rw [String.append_assoc, String.append_assoc]
    exact not_mem_of_take_ne (by decide +kernel)
  | undefinedRule name =>
    change "rule `" ++ name ++ "` is not defined" ∉ _
    rw [String.append_assoc]
    exact not_mem_of_take_ne (by decide +kernel)
  | _ => exact h.elim

/-- Where only expected causes are blamed, the message is an expected one. -/
lemma asExpected_of_blames {out : Outcome} (h : out.Blames Expected true) : AsExpected out := by
  cases out with
  | matched consumed remainder => trivial
  | rejected e =>
    have mem : e.message ∈ expectedCauses.map Cause.message := List.mem_map_of_mem (h (.inl rfl))
    exact ⟨mem, fun cause internal same => message_not_mem internal (same ▸ mem)⟩

section Lexical

variable {ρ : Type} {good : ρ → Prop} {start : Bool}

/-- A character test blames what it finds. -/
lemma blames_satisfy (accepts : Char → Bool) :
    (satisfy accepts : Pattern ρ).Blames good Expected start :=
  .satisfy _ accepts (by simp [Expected, expectedCauses]) (by simp [Expected, expectedCauses])

/-- Repetitions without bounds blame nothing of their own. -/
lemma blames_many (k : CharClass) : (ofClass k : Pattern ρ).many.Blames good Expected start :=
  .repeated _ nofun (.satisfy _) (blames_satisfy _)

/-- A choice hands on what its alternatives blame. -/
lemma blames_firstOf {choices : List (Pattern ρ)}
    (h : ∀ p ∈ choices, p.Blames good Expected false) :
    (firstOf choices).Blames good Expected start :=
  .firstOf _ (by simp [Expected, expectedCauses]) h

/-- The end of the input blames what is behind it. -/
lemma blames_endOfInput : (endOfInput : Pattern ρ).Blames good Expected start :=
  .endOfInput _ (by simp [Expected, expectedCauses])

/-- Whitespace blames nothing. -/
lemma blames_whitespace : (whitespace : Pattern ρ).Blames good Expected start :=
  blames_many _

/-- Digits are missing as expected. -/
lemma blames_digits : (digits : Pattern ρ).Blames good Expected start :=
  .repeated _ nofun (.satisfy _) (blames_satisfy _)

/-- An integer blames its first digit. -/
lemma blames_integer : (integer : Pattern ρ).Blames good Expected start := by
  apply Blames.concat
  simp only [List.forall_mem_cons]
  refine ⟨.optional _ _, blames_firstOf ?_, by simp⟩
  simp only [List.forall_mem_cons]
  refine ⟨blames_satisfy _, .concat _ ?_, by simp⟩
  simp only [List.forall_mem_cons]
  exact ⟨blames_satisfy _, blames_many _, by simp⟩

/-- An exponent blames its digits. -/
lemma blames_exponent : (exponent : Pattern ρ).Blames good Expected start := by
  refine .implies _ _ (.concat _ ?_)
  simp only [List.forall_mem_cons]
  exact ⟨.optional _ _, blames_digits, by simp⟩

/-- A number blames as expected. -/
lemma blames_number : (number : Pattern ρ).Blames good Expected start := by
  refine .context _ (.concat _ ?_)
  simp only [List.forall_mem_cons]
  exact ⟨blames_integer, .implies _ _ blames_digits, blames_exponent, by simp⟩

/-- Four digits are called for, and four there may be. -/
lemma blames_hex :
    (concat [.char 'u', (ofClass .hexDigit).exactly 4] : Pattern ρ).Blames good Expected start := by
  apply Blames.concat
  simp only [List.forall_mem_cons]
  refine ⟨blames_satisfy _, .repeated _ ?_ (.satisfy _) (blames_satisfy _), by simp⟩
  simp

/-- An escape blames what follows the backslash. -/
lemma blames_escape : (escape : Pattern ρ).Blames good Expected start := by
  apply Blames.concat
  simp only [List.forall_mem_cons]
  refine ⟨blames_satisfy _, .label _ (by simp [Expected, expectedCauses]) (blames_firstOf ?_),
    by simp⟩
  simp only [List.forall_mem_cons]
  exact ⟨blames_satisfy _, blames_hex, by simp⟩

/-- A string blames as expected, whatever is plain in it. -/
lemma blames_stringOf (unquoted : CharClass) :
    (stringOf unquoted : Pattern ρ).Blames good Expected start := by
  have consumes : (firstOf [.ofClass unquoted, escape] : Pattern ρ).Consumes := by
    apply Consumes.firstOf
    simp only [List.forall_mem_cons]
    exact ⟨.satisfy _, .concat _ (.satisfy _), by simp⟩
  have body : (firstOf [.ofClass unquoted, escape] : Pattern ρ).Blames good Expected true := by
    apply blames_firstOf
    simp only [List.forall_mem_cons]
    exact ⟨blames_satisfy _, blames_escape, by simp⟩
  refine .context _ (.concat _ ?_)
  simp only [List.forall_mem_cons]
  exact ⟨blames_satisfy _, .scan _ _ (by simp [Expected, expectedCauses]) consumes body, by simp⟩

end Lexical

section Rules

variable {good : Link → Prop} {start : Bool} {value object array : Pattern Link}

/-- So it does under either option. -/
lemma blames_stringFor (o : Options) : (stringFor o).Blames good Expected start := by
  rw [stringFor]
  split
  · exact blames_stringOf _
  · exact blames_stringOf _

/-- A list blames as expected if its items do. -/
lemma blames_bracketed (opening closing : Char) {item : Pattern Link}
    (hi : item.Blames good Expected true) :
    (bracketed opening closing item).Blames good Expected start := by
  have empty : (concat [whitespace, .char closing]).Blames good Expected false := by
    apply Blames.concat
    simp only [List.forall_mem_cons]
    exact ⟨blames_whitespace, blames_satisfy _, by simp⟩
  have filled : (concat [.separated item comma, .char closing]).Blames good Expected false := by
    apply Blames.concat
    simp only [List.forall_mem_cons]
    exact ⟨.series _ _ (Nat.le_refl 1) hi, blames_satisfy _, by simp⟩
  apply Blames.concat
  simp only [List.forall_mem_cons]
  refine ⟨blames_satisfy _, blames_firstOf ?_, by simp⟩
  simp only [List.forall_mem_cons]
  exact ⟨empty, filled, by simp⟩

/-- An object does if values do. -/
lemma blames_objectOf (o : Options) (hv : value.Blames good Expected true) :
    (objectOf o value).Blames good Expected start := by
  refine .context _ (blames_bracketed _ _ (.concat _ ?_))
  simp only [List.forall_mem_cons]
  exact ⟨blames_whitespace, blames_stringFor o, blames_whitespace, blames_satisfy _,
    blames_whitespace, hv, blames_whitespace, by simp⟩

/-- So does an array. -/
lemma blames_arrayOf (hv : value.Blames good Expected true) :
    (arrayOf value).Blames good Expected start := by
  refine .context _ (blames_bracketed _ _ (.concat _ ?_))
  simp only [List.forall_mem_cons]
  exact ⟨blames_whitespace, hv, blames_whitespace, by simp⟩

/-- Literals are missed at the very start, where the label speaks. -/
lemma blames_valueOf (o : Options) (ho : object.Blames good Expected false)
    (ha : array.Blames good Expected false) :
    (valueOf o object array).Blames good Expected start := by
  refine .label _ (by simp [Expected, expectedCauses]) (blames_firstOf ?_)
  rw [List.forall_mem_append]
  constructor
  · simp only [List.forall_mem_cons]
    exact ⟨blames_stringFor o, blames_number, ho, ha, by simp⟩
  · rw [literalsFor]
    split
    · simp only [List.forall_mem_cons]
      exact ⟨.literal _, .literal _, .literal _, by simp⟩
    · simp

/-- And a document. -/
lemma blames_documentOf (o : Options) (hv : value.Blames good Expected true) :
    (documentOf o value).Blames good Expected start := by
  rw [documentOf]
  split
  · apply Blames.concat
    simp only [List.forall_mem_cons]
    exact ⟨blames_whitespace, hv, blames_whitespace, blames_endOfInput, by simp⟩
  · apply Blames.concat
    simp only [List.forall_mem_cons]
    exact ⟨hv, blames_endOfInput, by simp⟩

end Rules

/-- The link leads to one of the rules. -/
def Listed (link : Link) : Prop :=
  link.rule = ⟨0, 0⟩ ∨ link.rule = ⟨0, 1⟩ ∨ link.rule = ⟨0, 2⟩

/-- The rules of the grammar blame as expected. -/
lemma Defines.blames {o : Options} {definitions : Link → Resolution Link} {good : Link → Prop}
    (hd : Defines o definitions) (hg : ∀ link, Listed link → good link) {link : Link}
    (h : Listed link) : ∃ p, definitions link = .defined p ∧ p.Blames good Expected true := by
  obtain ⟨value, object, array⟩ := hd link
  have inner : (refer (.weak ⟨0, 0⟩)).Blames good Expected true := .refer _ (hg _ (.inl rfl))
  obtain h | h | h := h
  · have lists : (∀ start, (refer (.weak ⟨0, 1⟩)).Blames good Expected start) ∧
        ∀ start, (refer (.weak ⟨0, 2⟩)).Blames good Expected start :=
      ⟨fun _ => .refer _ (hg _ (.inr (.inl rfl))), fun _ => .refer _ (hg _ (.inr (.inr rfl)))⟩
    exact ⟨_, value h, blames_valueOf o (lists.1 false) (lists.2 false)⟩
  · exact ⟨_, object h, blames_objectOf o inner⟩
  · exact ⟨_, array h, blames_arrayOf inner⟩

/-- A scope that holds the grammar defines its rules, whatever else it holds. -/
lemma defines_ofRoots (o : Options) {roots : List Nat} (h : 0 ∈ roots) :
    Defines o (Scope.ofRoots (finished o) roots).definitions := by
  intro link
  have held (table : link.rule.table = 0) :
      link.rule.table ∈ (Scope.ofRoots (finished o) roots).held := by
    rw [table]
    exact Store.mem_heldFrom.2 (.root h)
  refine ⟨fun h => ?_, fun h => ?_, fun h => ?_⟩ <;>
    rw [Scope.definitions, if_pos (held (by rw [h])), h] <;> rfl

namespace Entry

variable {o : Options} {entry : Entry} {strict : Bool}

/-- The pattern of an entry point, which has to consume the whole input if it is strict. -/
def pattern (o : Options) (entry : Entry) (strict : Bool) : Pattern Link :=
  if strict then (entry.patternAt o 0).complete else entry.patternAt o 0

/-- Every entry point has a matcher, with the tables of its grammar. -/
lemma matcher_eq (o : Options) (entry : Entry) (strict : Bool) :
    entry.matcher o strict = .ok ⟨entry.pattern o strict, ⟨entry.tablesAt o 0⟩⟩ := by
  rw [matcher, prepare_eq]
  cases strict with
  | false => rfl
  | true => rfl

/-- The pattern of an entry point is regular. -/
lemma regular_pattern (o : Options) (entry : Entry) (strict : Bool) :
    (entry.pattern o strict).Regular := by
  have regular : (entry.patternAt o 0).Regular :=
    (regular_prepare Store.regular_empty (prepare_eq o .empty entry)).1
  cases strict with
  | false => exact regular
  | true =>
    apply RegularOver.concat
    simp only [List.forall_mem_cons]
    exact ⟨regular, .endOfInput, by simp⟩

/-- The rules are good if the entry point needs any. -/
lemma blames_pattern {good : Link → Prop}
    (hg : entry.tablesAt o 0 = [] ∨ ∀ link, Listed link → good link) :
    (entry.pattern o strict).Blames good Expected true := by
  have rules (ne : entry.tablesAt o 0 ≠ []) : ∀ link, Listed link → good link :=
    hg.resolve_left ne
  have blames : (entry.patternAt o 0).Blames good Expected true := by
    cases entry with
    | number => exact blames_number
    | string => exact blames_stringOf _
    | strictString => exact blames_stringOf _
    | whitespace => exact blames_whitespace
    | value => exact .refer _ (rules nofun _ (.inl rfl))
    | object => exact .refer _ (rules nofun _ (.inr (.inl rfl)))
    | array => exact .refer _ (rules nofun _ (.inr (.inr rfl)))
    | document => exact blames_documentOf o (.refer _ (rules nofun _ (.inl rfl)))
  cases strict with
  | false => exact blames
  | true =>
    apply Blames.concat
    simp only [List.forall_mem_cons]
    exact ⟨blames, blames_endOfInput, by simp⟩

/-- An entry point that needs the grammar keeps it. -/
lemma keeps_pattern (h : entry.tablesAt o 0 ≠ []) : 0 ∈ (entry.pattern o strict).keeps := by
  have keeps : 0 ∈ (entry.patternAt o 0).keeps := by
    cases entry with
    | number | string | strictString | whitespace => exact absurd rfl h
    | value | object | array => exact List.mem_singleton.2 rfl
    | document =>
      rw [patternAt, documentOf]
      split
      · exact List.mem_singleton.2 rfl
      · exact List.mem_singleton.2 rfl
  cases strict with
  | false => exact keeps
  | true =>
    rw [pattern, if_pos rfl, keeps_complete]
    exact keeps

/-- An entry point with a grammar has the finished one. -/
lemma tablesAt_eq (h : entry.tablesAt o 0 ≠ []) : Store.mk (entry.tablesAt o 0) = finished o := by
  cases entry with
  | number | string | strictString | whitespace => exact absurd rfl h
  | value | object | array | document => rfl

end Entry

/-- Whatever is kept besides the pattern, its answers are as expected. -/
lemma Entry.asExpected_of_yields {o : Options} {entry : Entry} {strict : Bool} {kept : List Nat}
    {input : Slice} {t : List Char} {out : Outcome} (hs : input.Spells t)
    (h : (Goal.apply (entry.pattern o strict) input).Yields
      (Scope.ofRoots ⟨entry.tablesAt o 0⟩ ((entry.pattern o strict).keeps ++ kept)).definitions
      out) : AsExpected out := by
  have store : Store.Regular ⟨entry.tablesAt o 0⟩ :=
    (regular_prepare Store.regular_empty (prepare_eq o .empty entry)).2
  -- The rules are there if there is a reference to them.
  let good (link : Link) : Prop := entry.tablesAt o 0 ≠ [] ∧ Listed link
  have defined (link : Link) (hl : good link) : ∃ p,
      (Scope.ofRoots ⟨entry.tablesAt o 0⟩ ((entry.pattern o strict).keeps ++ kept)).definitions
        link = .defined p ∧ p.Blames good Expected true := by
    obtain ⟨ne, listed⟩ := hl
    rw [tablesAt_eq ne]
    have keeps : 0 ∈ (entry.pattern o strict).keeps := keeps_pattern ne
    exact (defines_ofRoots o (List.mem_append_left kept keeps)).blames
      (fun link hl => ⟨ne, hl⟩) listed
  have needs : entry.tablesAt o 0 = [] ∨ ∀ link, Listed link → good link :=
    or_iff_not_imp_left.2 fun ne link hl => ⟨ne, hl⟩
  refine asExpected_of_blames (Goal.Yields.blames ?_ defined (regular_pattern o entry strict)
    (blames_pattern needs) hs h)
  exact fun link p hp => store.definitions hp

/-- Whatever the options and the entry point are, every text comes to an outcome, and a rejection
has one of seven wordings, none of which belongs to an internal cause. This is so when nothing but
the pattern of the entry point is kept, and it stays so when more is. -/
theorem rejected_as_expected (o : Options) (entry : Entry) (strict : Bool) (t : List Char) :
    ∃ m out, entry.matcher o strict = .ok m ∧ recognize o entry strict (.whole 0 t) = .ok out ∧
      AsExpected out ∧
      (∀ kept out', (Goal.apply m.pattern (.whole 0 t)).Yields
        (Scope.ofRoots m.store (m.pattern.keeps ++ kept)).definitions out' → AsExpected out') ∧
      AsExpected (recognizeValue (.whole 0 t)) := by
  have spells := Slice.spells_whole 0 t
  have outcome (o : Options) (entry : Entry) (strict : Bool) :
      ∃ out, recognize o entry strict (.whole 0 t) = .ok out ∧ AsExpected out := by
    have matcher := entry.matcher_eq o strict
    obtain ⟨out, ho⟩ := Option.isSome_iff_exists.1 (isSome_parse? matcher (.whole 0 t))
    rw [Matcher.parse?, parse?_eq_run] at ho
    have yields : (Goal.apply (entry.pattern o strict) (.whole 0 t)).Yields _ out := ⟨_, ho⟩
    refine ⟨out, (recognize_eq_ok_iff matcher).2 yields, ?_⟩
    have alone := List.append_nil (entry.pattern o strict).keeps
    rw [Matcher.scope, ← alone] at yields
    exact Entry.asExpected_of_yields spells yields
  obtain ⟨out, recognized, expected⟩ := outcome o entry strict
  obtain ⟨out', recognized', expected'⟩ := outcome {} .value false
  refine ⟨_, out, entry.matcher_eq o strict, recognized, expected, ?_, ?_⟩
  · exact fun kept out' yields => Entry.asExpected_of_yields spells yields
  · rw [recognizeValue, recognized']
    exact expected'

end Recognizer.Json
