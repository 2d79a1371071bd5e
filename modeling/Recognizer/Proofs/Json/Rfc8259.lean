import Recognizer.Proofs.Json.Language

/-!
# The grammar of RFC 8259

The productions as they stand there: structural characters bring the whitespace around them along,
and a text is a value between whitespace. With all options on, the documents are these texts
(`isDocument_rfc8259`).
-/

namespace Recognizer.Json

namespace Rfc8259

/-- `ws` -/
def IsWs (w : List Char) : Prop :=
  ∀ c ∈ w, c = ' ' ∨ c = '\t' ∨ c = '\n' ∨ c = '\r'

/-- `begin-array`, `begin-object`, `end-array`, `end-object`, `name-separator` and
`value-separator`, by their character. -/
inductive IsStructural (d : Char) : List Char → Prop where
  | intro {w w' : List Char} : IsWs w → IsWs w' → IsStructural d (w ++ d :: w')

/-- `char` -/
inductive IsChar : List Char → Prop where
  | unescaped {c : Char} : (0x20 ≤ c.toNat ∧ c.toNat ≤ 0x21) ∨ (0x23 ≤ c.toNat ∧ c.toNat ≤ 0x5B) ∨
    (0x5D ≤ c.toNat ∧ c.toNat ≤ 0x10FFFF) → IsChar [c]
  | escape {c : Char} : c ∈ ['"', '\\', '/', 'b', 'f', 'n', 'r', 't'] → IsChar ['\\', c]
  | unicode {a b c d : Char} : CharClass.hexDigit.accepts a = true →
    CharClass.hexDigit.accepts b = true → CharClass.hexDigit.accepts c = true →
    CharClass.hexDigit.accepts d = true → IsChar ['\\', 'u', a, b, c, d]

/-- `string` -/
inductive IsString : List Char → Prop where
  | intro {chars : List (List Char)} : (∀ cs ∈ chars, IsChar cs) →
    IsString ('"' :: (chars.flatten ++ ['"']))

/-- The texts of `value`, of `array` and `object`, of what stands in their brackets, and of `value`
and `member` as parts of that. -/
inductive Generates : Symbol → List Char → Prop where
  | literal {t : List Char} : t ∈ literalWords → Generates .value t
  | compound (b : Bracket) {t : List Char} : Generates (.compound b) t → Generates .value t
  | number {t : List Char} : IsNumber t → Generates .value t
  | string {t : List Char} : IsString t → Generates .value t
  | empty (b : Bracket) {x y : List Char} : IsStructural b.opening x → IsStructural b.closing y →
    Generates (.compound b) (x ++ y)
  | filled (b : Bracket) {x t y : List Char} : IsStructural b.opening x → Generates (.items b) t →
    IsStructural b.closing y → Generates (.compound b) (x ++ (t ++ y))
  | last (b : Bracket) {t : List Char} : Generates (.item b) t → Generates (.items b) t
  | more (b : Bracket) {t x ts : List Char} : Generates (.item b) t → IsStructural ',' x →
    Generates (.items b) ts → Generates (.items b) (t ++ (x ++ ts))
  | element {t : List Char} : Generates .value t → Generates (.item .square) t
  | member {k x v : List Char} : IsString k → IsStructural ':' x → Generates .value v →
    Generates (.item .curly) (k ++ (x ++ v))

/-- `JSON-text` -/
inductive IsText : List Char → Prop where
  | intro {w v w' : List Char} : IsWs w → Generates .value v → IsWs w' → IsText (w ++ (v ++ w'))

/-- `ws` is whitespace. -/
lemma isWs_iff {w : List Char} : IsWs w ↔ IsBlank w := by
  refine forall₂_congr fun c _ => ?_
  simp only [CharClass.accepts, Bool.or_eq_true, beq_iff_eq, or_assoc]

/-- `unescaped` is the class of characters that strict strings may have plainly. -/
lemma unescaped_iff {c : Char} : CharClass.unescaped.accepts c = true ↔
    (0x20 ≤ c.toNat ∧ c.toNat ≤ 0x21) ∨ (0x23 ≤ c.toNat ∧ c.toNat ≤ 0x5B) ∨
      (0x5D ≤ c.toNat ∧ c.toNat ≤ 0x10FFFF) := by
  have quote : c = '"' ↔ c.toNat = 0x22 := Char.toNat_inj.symm
  have backslash : c = '\\' ↔ c.toNat = 0x5C := Char.toNat_inj.symm
  have control : '\x1f' < c ↔ 0x1F < c.toNat := Iff.rfl
  have bound : c.toNat ≤ 0x10FFFF := by
    rcases c.valid with h | ⟨_, h⟩
    · exact Nat.le_of_lt (Nat.lt_trans h (by decide))
    · exact Nat.le_of_lt_succ h
  simp only [CharClass.accepts, Bool.and_eq_true, bne_iff_ne, ne_eq, decide_eq_true_eq, quote,
    backslash, control]
  omega

/-- Each `char` may stand in the body of a string. -/
lemma isStringBody_flatten {chars : List (List Char)} (h : ∀ cs ∈ chars, IsChar cs) :
    IsStringBody .unescaped chars.flatten := by
  induction chars with
  | nil => exact .nil
  | cons cs chars ih =>
    rw [List.forall_mem_cons] at h
    have rest := ih h.2
    cases h.1 with
    | unescaped hc => exact .plain (unescaped_iff.2 hc) rest
    | escape hc => exact .escape hc rest
    | unicode ha hb hc hd => exact .unicode ha hb hc hd rest

/-- The body of a string consists of `char`s. -/
lemma exists_chars {body : List Char} (h : IsStringBody .unescaped body) :
    ∃ chars : List (List Char), (∀ cs ∈ chars, IsChar cs) ∧ body = chars.flatten := by
  have cons {cs body : List Char} (hc : IsChar cs)
      (h : ∃ chars : List (List Char), (∀ cs ∈ chars, IsChar cs) ∧ body = chars.flatten) :
      ∃ chars : List (List Char), (∀ cs ∈ chars, IsChar cs) ∧ cs ++ body = chars.flatten := by
    obtain ⟨chars, hcs, rfl⟩ := h
    exact ⟨cs :: chars, List.forall_mem_cons.2 ⟨hc, hcs⟩, rfl⟩
  induction h with
  | nil => exact ⟨[], nofun, rfl⟩
  | plain hc _ ih => exact cons (.unescaped (unescaped_iff.1 hc)) ih
  | escape hc _ ih => exact cons (.escape hc) ih
  | unicode ha hb hc hd _ ih => exact cons (.unicode ha hb hc hd) ih

/-- The strings of both grammars are the same. -/
lemma isString_iff {t : List Char} : IsString t ↔ Json.IsString .unescaped t := by
  constructor
  · rintro ⟨h⟩
    exact .intro (isStringBody_flatten h)
  · rintro ⟨h⟩
    obtain ⟨chars, hcs, rfl⟩ := exists_chars h
    exact .intro hcs

/-- What a text of this grammar is among the derived ones. Values and lists may stand between
whitespace that their structural characters bring along. -/
def Derived : Symbol → List Char → Prop
  | .value, t => ∃ w v w', t = w ++ (v ++ w') ∧ IsBlank w ∧
      Json.Generates .rfc8259 .value v ∧ IsBlank w'
  | .compound b, t => ∃ w v w', t = w ++ (v ++ w') ∧ IsBlank w ∧
      Json.Generates .rfc8259 (.compound b) v ∧ IsBlank w'
  | s, t => Json.Generates .rfc8259 s t

/-- A derived value needs no whitespace around it. -/
lemma derived_value {v : List Char} (h : Json.Generates .rfc8259 .value v) : Derived .value v :=
  ⟨[], v, [], (List.append_nil v).symm, isBlank_nil, h, isBlank_nil⟩

/-- Every text of this grammar is derived, apart from the whitespace around it. -/
lemma Generates.derived {s : Symbol} {t : List Char} (h : Generates s t) : Derived s t := by
  induction h with
  | literal h => exact derived_value (.literal rfl h)
  | number h => exact derived_value (.number h)
  | string h => exact derived_value (.string (isString_iff.1 h))
  | compound b _ ih =>
    obtain ⟨w, v, w', rfl, hw, hv, hw'⟩ := ih
    exact ⟨w, v, w', rfl, hw, .compound b hv, hw'⟩
  -- The whitespace inside of the brackets comes from the two structural characters.
  | empty b hx hy =>
    obtain ⟨hw₁, hw₂⟩ := hx
    obtain ⟨hw₃, hw₄⟩ := hy
    rw [isWs_iff] at hw₁ hw₂ hw₃ hw₄
    refine ⟨_, _, _, ?_, hw₁, .empty b (isBlank_append.2 ⟨hw₂, hw₃⟩), hw₄⟩
    simp only [List.append_assoc, List.cons_append, List.nil_append]
  | filled b hx _ hy ih =>
    obtain ⟨hw₁, hw₂⟩ := hx
    obtain ⟨hw₃, hw₄⟩ := hy
    rw [isWs_iff] at hw₁ hw₂ hw₃ hw₄
    -- It belongs to the first item on one side and to the last item on the other.
    have leading := Json.Generates.blank_append_items hw₂ ih
    have items := Json.Generates.append_blank_items hw₃ rfl leading
    refine ⟨_, _, _, ?_, hw₁, .filled b items, hw₄⟩
    simp only [List.append_assoc, List.cons_append, List.nil_append]
  | last b _ ih => exact .last b ih
  | more b _ hx _ ih ihs =>
    obtain ⟨hw, hw'⟩ := hx
    rw [isWs_iff] at hw hw'
    have items := Json.Generates.more b (Json.Generates.append_blank hw ih)
      (Json.Generates.blank_append_items hw' ihs)
    show Json.Generates .rfc8259 (.items b) _
    simpa only [List.append_assoc, List.cons_append] using items
  | element _ ih =>
    obtain ⟨w, v, w', rfl, hw, hv, hw'⟩ := ih
    exact .element hw hv hw'
  | member hk hx _ ih =>
    obtain ⟨hw₂, hw₃⟩ := hx
    rw [isWs_iff] at hw₂ hw₃
    obtain ⟨w, v, w', rfl, hw, hv, hw'⟩ := ih
    have key : Json.IsString (Options.plain .rfc8259) _ := isString_iff.1 hk
    have member := Json.Generates.member isBlank_nil key hw₂ (isBlank_append.2 ⟨hw₃, hw⟩) hv hw'
    show Json.Generates .rfc8259 (.item .curly) _
    simpa only [List.append_assoc, List.cons_append, List.nil_append] using member

/-- What a derived text is in this grammar, where items bring no whitespace along. -/
def Stated : Symbol → List Char → Prop
  | .items b, t => ∃ w m w', t = w ++ (m ++ w') ∧ IsWs w ∧ Generates (.items b) m ∧ IsWs w'
  | .item b, t => ∃ w m w', t = w ++ (m ++ w') ∧ IsWs w ∧ Generates (.item b) m ∧ IsWs w'
  | s, t => Generates s t

/-- Every derived text is one of this grammar, apart from the whitespace around items. -/
lemma stated {s : Symbol} {t : List Char} (h : Json.Generates .rfc8259 s t) : Stated s t := by
  have nil : IsWs [] := nofun
  induction h with
  | string h => exact .string (isString_iff.2 h)
  | number h => exact .number h
  | compound b _ ih => exact .compound b ih
  | literal _ h => exact .literal h
  | empty b hw => exact .empty b (.intro nil (isWs_iff.2 hw)) (.intro nil nil)
  | filled b _ ih =>
    obtain ⟨w, m, w', rfl, hw, hm, hw'⟩ := ih
    have list := Generates.filled b (.intro nil hw) hm (.intro hw' nil)
    show Generates (.compound b) _
    simpa only [List.append_assoc, List.cons_append, List.nil_append] using list
  | last b _ ih =>
    obtain ⟨w, m, w', rfl, hw, hm, hw'⟩ := ih
    exact ⟨w, m, w', rfl, hw, .last b hm, hw'⟩
  -- The comma takes the whitespace of the items beside it.
  | more b _ _ ih ihs =>
    obtain ⟨w₁, m, w₂, rfl, hw₁, hm, hw₂⟩ := ih
    obtain ⟨w₃, ms, w₄, rfl, hw₃, hms, hw₄⟩ := ihs
    refine ⟨w₁, m ++ ((w₂ ++ ',' :: w₃) ++ ms), w₄, ?_, hw₁, .more b hm (.intro hw₂ hw₃) hms, hw₄⟩
    simp only [List.append_assoc, List.cons_append]
  | @element w v w' hw _ hw' ih =>
    exact ⟨w, v, w', rfl, isWs_iff.2 hw, .element ih, isWs_iff.2 hw'⟩
  | @member w₁ k w₂ w₃ v w₄ hw₁ hk hw₂ hw₃ _ hw₄ ih =>
    refine ⟨w₁, k ++ ((w₂ ++ ':' :: w₃) ++ v), w₄, ?_, isWs_iff.2 hw₁,
      .member (isString_iff.2 hk) (.intro (isWs_iff.2 hw₂) (isWs_iff.2 hw₃)) ih, isWs_iff.2 hw₄⟩
    simp only [List.append_assoc, List.cons_append]

end Rfc8259

/-- With all options on, the documents are the texts of RFC 8259. -/
theorem isDocument_rfc8259 (t : List Char) : IsDocument .rfc8259 t ↔ Rfc8259.IsText t := by
  constructor
  · intro h
    cases h with
    | plain hv =>
      have nil : Rfc8259.IsWs [] := nofun
      have text := Rfc8259.IsText.intro nil (Rfc8259.stated hv) nil
      rwa [List.nil_append, List.append_nil] at text
    | padded _ hw hv hw' =>
      exact .intro (Rfc8259.isWs_iff.2 hw) (Rfc8259.stated hv) (Rfc8259.isWs_iff.2 hw')
  · rintro ⟨hw₁, hv, hw₂⟩
    obtain ⟨w, v, w', rfl, hw, hv, hw'⟩ := hv.derived
    rw [Rfc8259.isWs_iff] at hw₁ hw₂
    have document := IsDocument.padded rfl (isBlank_append.2 ⟨hw₁, hw⟩) hv
      (isBlank_append.2 ⟨hw', hw₂⟩)
    simpa only [List.append_assoc] using document

end Recognizer.Json
