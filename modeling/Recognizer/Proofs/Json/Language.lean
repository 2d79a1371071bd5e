import Mathlib.Tactic.Lemma
import Recognizer.CharClass
import Recognizer.Json.Options

/-!
# The language of JSON texts

The grammar as derivations: numbers, strings and whitespace by their parts, values and lists by
`Generates`, and documents. It knows nothing of patterns and of the order in which they try.
-/

namespace Recognizer.Json

/-- One digit or more. -/
inductive IsDigits : List Char → Prop where
  | intro {d : Char} {ds : List Char} : CharClass.digit.accepts d = true →
    (∀ c ∈ ds, CharClass.digit.accepts c = true) → IsDigits (d :: ds)

/-- A minus sign or nothing. -/
inductive IsMinus : List Char → Prop where
  | absent : IsMinus []
  | present : IsMinus ['-']

/-- `0`, or digits that do not start with it. -/
inductive IsInteger : List Char → Prop where
  | zero : IsInteger ['0']
  | digits {d : Char} {ds : List Char} : CharClass.nonzeroDigit.accepts d = true →
    (∀ c ∈ ds, CharClass.digit.accepts c = true) → IsInteger (d :: ds)

/-- A point and digits, or nothing. -/
inductive IsFraction : List Char → Prop where
  | absent : IsFraction []
  | present {ds : List Char} : IsDigits ds → IsFraction ('.' :: ds)

/-- A plus or minus sign or nothing. -/
inductive IsSign : List Char → Prop where
  | absent : IsSign []
  | plus : IsSign ['+']
  | minus : IsSign ['-']

/-- One sign is a sign. -/
lemma IsSign.singleton {c : Char} (h : c = '+' ∨ c = '-') : IsSign [c] := by
  rcases h with rfl | rfl
  · exact .plus
  · exact .minus

/-- An exponent mark with a sign or none and digits, or nothing. -/
inductive IsExponent : List Char → Prop where
  | absent : IsExponent []
  | present {mark : Char} {sign ds : List Char} : mark = 'e' ∨ mark = 'E' → IsSign sign →
    IsDigits ds → IsExponent (mark :: (sign ++ ds))

/-- A number by its parts, of which only the integer must be there. -/
inductive IsNumber : List Char → Prop where
  | intro {minus integer fraction exponent : List Char} : IsMinus minus → IsInteger integer →
    IsFraction fraction → IsExponent exponent →
    IsNumber (minus ++ (integer ++ (fraction ++ exponent)))

/-- What is left behind a number does not go on with it: no digit unless the number is `0` or `-0`,
no point unless it has a fraction or an exponent, and no exponent mark unless it has an exponent. -/
structure NumberEnds (number rest : List Char) : Prop where
  digit : ∀ c ∈ rest.head?, CharClass.digit.accepts c = true → number = ['0'] ∨ number = ['-', '0']
  point : '.' ∈ rest.head? → '.' ∈ number ∨ 'e' ∈ number ∨ 'E' ∈ number
  mark : 'e' ∈ rest.head? ∨ 'E' ∈ rest.head? → 'e' ∈ number ∨ 'E' ∈ number

/-- The inside of a string whose plain characters are those of class `k`. -/
inductive IsStringBody (k : CharClass) : List Char → Prop where
  | nil : IsStringBody k []
  | plain {c : Char} {cs : List Char} : k.accepts c = true → IsStringBody k cs →
    IsStringBody k (c :: cs)
  | escape {c : Char} {cs : List Char} : c ∈ ['"', '\\', '/', 'b', 'f', 'n', 'r', 't'] →
    IsStringBody k cs → IsStringBody k ('\\' :: c :: cs)
  | unicode {a b c d : Char} {cs : List Char} : CharClass.hexDigit.accepts a = true →
    CharClass.hexDigit.accepts b = true → CharClass.hexDigit.accepts c = true →
    CharClass.hexDigit.accepts d = true → IsStringBody k cs →
    IsStringBody k ('\\' :: 'u' :: a :: b :: c :: d :: cs)

/-- A string: a body in quotes. -/
inductive IsString (k : CharClass) : List Char → Prop where
  | intro {body : List Char} : IsStringBody k body → IsString k ('"' :: (body ++ ['"']))

/-- The plain characters of strings: all but quotes and backslashes, and if strings are strict none
up to U+001F. -/
def Options.plain (o : Options) : CharClass :=
  if o.strictStrings then .unescaped else .plain

/-- A quote is never plain. -/
lemma Options.plain_quote (o : Options) : o.plain.accepts '"' = false := by
  rw [plain]
  split <;> rfl

/-- Nor is a backslash. -/
lemma Options.plain_backslash (o : Options) : o.plain.accepts '\\' = false := by
  rw [plain]
  split <;> rfl

/-- Whitespace, maybe none. -/
def IsBlank (w : List Char) : Prop :=
  ∀ c ∈ w, CharClass.whitespace.accepts c = true

/-- The kinds of brackets: square ones of arrays, curly ones of objects. -/
inductive Bracket where
  | square
  | curly
  deriving DecidableEq

namespace Bracket

/-- The bracket that opens. -/
def opening : Bracket → Char
  | square => '['
  | curly => '\x7b'

/-- The bracket that closes. -/
def closing : Bracket → Char
  | square => ']'
  | curly => '\x7d'

end Bracket

/-- `true`, `false` and `null`. -/
def literalWords : List (List Char) :=
  [['t', 'r', 'u', 'e'], ['f', 'a', 'l', 's', 'e'], ['n', 'u', 'l', 'l']]

/-- What a derivation may start from. Elements are the items of arrays, members those of objects. -/
inductive Symbol where
  | value
  /-- An array or an object. -/
  | compound (b : Bracket)
  /-- Items with commas between them. -/
  | items (b : Bracket)
  /-- An item with whitespace around it. -/
  | item (b : Bracket)

/-- The texts derived from each symbol. -/
inductive Generates (o : Options) : Symbol → List Char → Prop where
  | string {t : List Char} : IsString o.plain t → Generates o .value t
  | number {t : List Char} : IsNumber t → Generates o .value t
  | compound (b : Bracket) {t : List Char} : Generates o (.compound b) t → Generates o .value t
  | literal {t : List Char} : o.literals = true → t ∈ literalWords → Generates o .value t
  | empty (b : Bracket) {w : List Char} : IsBlank w →
    Generates o (.compound b) (b.opening :: (w ++ [b.closing]))
  | filled (b : Bracket) {t : List Char} : Generates o (.items b) t →
    Generates o (.compound b) (b.opening :: (t ++ [b.closing]))
  | last (b : Bracket) {t : List Char} : Generates o (.item b) t → Generates o (.items b) t
  | more (b : Bracket) {t ts : List Char} : Generates o (.item b) t → Generates o (.items b) ts →
    Generates o (.items b) (t ++ ',' :: ts)
  | element {w v w' : List Char} : IsBlank w → Generates o .value v → IsBlank w' →
    Generates o (.item .square) (w ++ (v ++ w'))
  | member {w₁ k w₂ w₃ v w₄ : List Char} : IsBlank w₁ → IsString o.plain k → IsBlank w₂ →
    IsBlank w₃ → Generates o .value v → IsBlank w₄ →
    Generates o (.item .curly) (w₁ ++ (k ++ (w₂ ++ ':' :: (w₃ ++ (v ++ w₄)))))

/-- One value, with whitespace around it if that is allowed. -/
inductive IsDocument (o : Options) : List Char → Prop where
  | plain {t : List Char} : Generates o .value t → IsDocument o t
  | padded {w v w' : List Char} : o.surroundingWhitespace = true → IsBlank w →
    Generates o .value v → IsBlank w' → IsDocument o (w ++ (v ++ w'))

/-- No whitespace is needed. -/
lemma isBlank_nil : IsBlank [] :=
  fun _ h => nomatch h

/-- Whitespace is whitespace in all parts. -/
lemma isBlank_append {w w' : List Char} : IsBlank (w ++ w') ↔ IsBlank w ∧ IsBlank w' :=
  List.forall_mem_append

section Blank

variable {o : Options} {b : Bracket} {w t : List Char}

/-- Whitespace before an item belongs to it. -/
lemma Generates.blank_append (hw : IsBlank w) (h : Generates o (.item b) t) :
    Generates o (.item b) (w ++ t) := by
  cases h with
  | element hw₁ hv hw₂ =>
    rw [← List.append_assoc]
    exact .element (isBlank_append.2 ⟨hw, hw₁⟩) hv hw₂
  | member hw₁ hk hw₂ hw₃ hv hw₄ =>
    rw [← List.append_assoc]
    exact .member (isBlank_append.2 ⟨hw, hw₁⟩) hk hw₂ hw₃ hv hw₄

/-- And so does whitespace behind it. -/
lemma Generates.append_blank (hw : IsBlank w) (h : Generates o (.item b) t) :
    Generates o (.item b) (t ++ w) := by
  cases h with
  | element hw₁ hv hw₂ =>
    have longer := Generates.element hw₁ hv (isBlank_append.2 ⟨hw₂, hw⟩)
    simpa only [List.append_assoc] using longer
  | member hw₁ hk hw₂ hw₃ hv hw₄ =>
    have longer := Generates.member hw₁ hk hw₂ hw₃ hv (isBlank_append.2 ⟨hw₄, hw⟩)
    simpa only [List.append_assoc, List.cons_append] using longer

/-- Whitespace before items belongs to the first. -/
lemma Generates.blank_append_items (hw : IsBlank w) (h : Generates o (.items b) t) :
    Generates o (.items b) (w ++ t) := by
  cases h with
  | last _ hi => exact .last b (hi.blank_append hw)
  | more _ hi hs =>
    rw [← List.append_assoc]
    exact .more b (hi.blank_append hw) hs

/-- Whitespace behind items belongs to the last. -/
lemma Generates.append_blank_items (hw : IsBlank w) {s : Symbol} (hs : s = .items b)
    (h : Generates o s t) : Generates o s (t ++ w) := by
  induction h with
  | last b hi =>
    cases hs
    exact .last b (hi.append_blank hw)
  | more b hi _ _ ih =>
    rw [List.append_assoc]
    exact .more b hi (ih hs)
  | _ => cases hs

end Blank

/-- The rules of the grammar that a text can be tried against. -/
inductive Start where
  | value
  | compound (b : Bracket)
  | document
  deriving DecidableEq

/-- The texts of a rule. -/
def Start.Sentence (o : Options) : Start → List Char → Prop
  | value => Generates o .value
  | compound b => Generates o (.compound b)
  | document => IsDocument o

end Recognizer.Json
