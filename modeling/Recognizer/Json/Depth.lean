import Recognizer.Json.Entry
import Recognizer.Pattern.Depth

/-!
# How deeply JSON nests

Every entry point comes to an outcome on every input, within a depth that grows with the input
(`Json.isSome_parse?`). Objects and arrays refer to values only behind their opening bracket, and
this byte pays for the depth that another level needs.

As in `Recognizer.Pattern.Depth`, steps are stated as theorems, since the program has no `lemma`.
-/

namespace Recognizer

open Pattern

variable {ρ : Type} {definitions : ρ → Resolution ρ} {a b n : Nat}

namespace Pattern

/-- More depth is enough as well, and nothing need be said of the bytes that are consumed. -/
theorem Fits.weaken {p : Pattern ρ} {b' k : Nat} (h : p.Fits definitions a b n k) (hb : b ≤ b') :
    p.Fits definitions a b' n 0 :=
  h.mono hb (Nat.le_refl n) (Nat.zero_le k)

/-- Parts that fit whatever they consume fit one after the other. -/
theorem allFit_of_forall {parts : List (Pattern ρ)}
    (h : ∀ p ∈ parts, p.Fits definitions a b n 0) : AllFit definitions a b n 0 parts := by
  induction parts with
  | nil => exact .nil b n
  | cons p ps ih =>
    have hps := ih fun q hq => h q (List.mem_cons_of_mem _ hq)
    exact .cons (h p (List.mem_cons_self ..)) fun _ => hps

/-- A sequence of them fits one level above. -/
theorem fits_concat_of_forall {parts : List (Pattern ρ)}
    (h : ∀ p ∈ parts, p.Fits definitions a b n 0) :
    (concat parts).Fits definitions a (b + 1) n 0 :=
  fits_concat (allFit_of_forall h)

/-- A character consumes at least the one byte. -/
theorem fits_char (ch : Char) : (char ch : Pattern ρ).Fits definitions a 1 n 1 :=
  fits_satisfy _

/-- So does a character of a class. -/
theorem fits_ofClass (class' : CharClass) :
    (ofClass class' : Pattern ρ).Fits definitions a 1 n 1 :=
  fits_satisfy _

end Pattern

namespace Json

section Lexical

variable (ha : 1 ≤ a)

include ha

/-- Whitespace fits, and may consume nothing. -/
theorem fits_whitespace : (whitespace : Pattern ρ).Fits definitions a 3 n 0 :=
  fits_repeated ha ((fits_ofClass _).weaken (by omega)) _ _

/-- Digits fit. -/
theorem fits_digits : (digits : Pattern ρ).Fits definitions a 3 n 0 :=
  fits_repeated ha ((fits_ofClass _).weaken (by omega)) _ _

/-- The integer part of a number fits. -/
theorem fits_integer : (integer : Pattern ρ).Fits definitions a 6 n 0 := by
  have tail : (concat [.ofClass .nonzeroDigit, (ofClass .digit).many] : Pattern ρ).Fits
      definitions a 4 n 0 :=
    fits_concat_of_forall <| by
      simp only [List.forall_mem_cons]
      exact ⟨(fits_ofClass _).weaken (by omega),
        fits_repeated ha ((fits_ofClass _).weaken (by omega)) _ _, by simp⟩
  have digit : (firstOf [.char '0', .concat [.ofClass .nonzeroDigit, (ofClass .digit).many]] :
      Pattern ρ).Fits definitions a 5 n 0 :=
    fits_firstOf <| by
      simp only [List.forall_mem_cons]
      exact ⟨(fits_char _).weaken (by omega), tail, by simp⟩
  refine fits_concat_of_forall ?_
  simp only [List.forall_mem_cons]
  exact ⟨(fits_optional (fits_char _)).weaken (by omega), digit, by simp⟩

/-- The fraction of a number fits. -/
theorem fits_fraction : (fraction : Pattern ρ).Fits definitions a 4 n 0 :=
  fits_implies ((fits_char _).weaken (by omega)) (fits_digits ha)

/-- The exponent of a number fits. -/
theorem fits_exponent : (exponent : Pattern ρ).Fits definitions a 5 n 0 := by
  have mark (x y : Char) : (firstOf [.char x, .char y] : Pattern ρ).Fits definitions a 2 n 1 :=
    fits_firstOf <| by
      simp only [List.forall_mem_cons]
      exact ⟨fits_char _, fits_char _, by simp⟩
  refine fits_implies ((mark _ _).weaken (by omega)) (fits_concat_of_forall ?_)
  simp only [List.forall_mem_cons]
  exact ⟨(fits_optional (mark _ _)).weaken (by omega), fits_digits ha, by simp⟩

/-- Numbers fit. -/
theorem fits_number : (number : Pattern ρ).Fits definitions a 8 n 0 := by
  refine fits_context (fits_concat_of_forall ?_) _
  simp only [List.forall_mem_cons]
  exact ⟨fits_integer ha, (fits_fraction ha).weaken (by omega),
    (fits_exponent ha).weaken (by omega), by simp⟩

/-- Escapes fit. -/
theorem fits_escape : (escape : Pattern ρ).Fits definitions a 7 n 0 := by
  have hex : (concat [.char 'u', (ofClass .hexDigit).exactly 4] : Pattern ρ).Fits
      definitions a 4 n 0 :=
    fits_concat_of_forall <| by
      simp only [List.forall_mem_cons]
      exact ⟨(fits_char _).weaken (by omega),
        fits_repeated ha ((fits_ofClass _).weaken (by omega)) _ _, by simp⟩
  have escaped : (firstOf [.ofClass .escapeLetter, .concat [.char 'u',
      (ofClass .hexDigit).exactly 4]] : Pattern ρ).Fits definitions a 5 n 0 :=
    fits_firstOf <| by
      simp only [List.forall_mem_cons]
      exact ⟨(fits_ofClass _).weaken (by omega), hex, by simp⟩
  refine fits_concat_of_forall ?_
  simp only [List.forall_mem_cons]
  exact ⟨(fits_char _).weaken (by omega), fits_label escaped _, by simp⟩

/-- Strings fit, whatever may stand in them unquoted. -/
theorem fits_stringOf (unquoted : CharClass) :
    (stringOf unquoted : Pattern ρ).Fits definitions a 12 n 0 := by
  have body : (firstOf [.ofClass unquoted, escape] : Pattern ρ).Fits definitions a 8 n 0 :=
    fits_firstOf <| by
      simp only [List.forall_mem_cons]
      exact ⟨(fits_ofClass _).weaken (by omega), fits_escape ha, by simp⟩
  refine fits_context (fits_concat_of_forall ?_) _
  simp only [List.forall_mem_cons]
  exact ⟨(fits_char _).weaken (by omega),
    fits_scan ha ((fits_char _).weaken (by omega)) body, by simp⟩

end Lexical

/-- The depth that a byte pays for: enough for the rules between a bracket and the next. -/
def depthPerByte : Nat := 16

section Rules

variable {o : Options} {definitions : Link → Resolution Link}

/-- Strings fit under either option. -/
theorem fits_stringFor (n : Nat) : (stringFor o).Fits definitions depthPerByte 12 n 0 := by
  rw [stringFor]
  split <;> exact fits_stringOf (by decide) _

/-- A comma consumes at least its own byte, so that items are paid for. -/
theorem fits_comma (n : Nat) : comma.Fits definitions depthPerByte 4 n 1 :=
  fits_concat <| .cons (fits_whitespace (by decide)) fun _ =>
    .cons ((fits_char _).mono (by omega) (Nat.le_refl _) (Nat.le_refl _)) fun _ =>
      .cons ((fits_whitespace (by decide)).weaken (by omega)) fun _ => .nil _ _

/-- A list fits if its items do behind the bracket. -/
theorem fits_bracketed {opening closing : Char} {item : Pattern Link}
    (h : 1 ≤ n → item.Fits definitions depthPerByte 21 (n - 1) 0) :
    (bracketed opening closing item).Fits definitions depthPerByte 10 n 0 := by
  have open' : (char opening : Pattern Link).Fits definitions depthPerByte 9 n 1 :=
    (fits_char _).mono (by omega) (Nat.le_refl _) (Nat.le_refl _)
  have inside (hn : 1 ≤ n) : (firstOf [.concat [whitespace, .char closing],
      .concat [.separated item comma, .char closing]]).Fits definitions depthPerByte 25
      (n - 1) 0 := by
    have items : (separated item comma).Fits definitions depthPerByte 23 (n - 1) 0 :=
      fits_series (by decide) (h hn)
        ((fits_comma _).mono (by omega) (Nat.le_refl _) (Nat.le_refl _)) {}
    have closed : (concat [.separated item comma, .char closing]).Fits definitions depthPerByte
        24 (n - 1) 0 := by
      refine fits_concat_of_forall ?_
      simp only [List.forall_mem_cons]
      exact ⟨items, (fits_char _).weaken (by omega), by simp⟩
    have empty : (concat [whitespace, .char closing]).Fits definitions depthPerByte 4
        (n - 1) 0 := by
      refine fits_concat_of_forall ?_
      simp only [List.forall_mem_cons]
      exact ⟨fits_whitespace (by decide), (fits_char _).weaken (by omega), by simp⟩
    refine fits_firstOf ?_
    simp only [List.forall_mem_cons]
    exact ⟨empty.weaken (by omega), closed, by simp⟩
  exact (fits_concat (.cons open' fun hn => .cons (inside hn) fun _ => .nil _ _)).weaken
    (Nat.le_refl _)

/-- Documents fit if values do. -/
theorem fits_documentOf {value : Pattern Link}
    (hv : ∀ n, value.Fits definitions depthPerByte 20 n 0)
    (n : Nat) : (documentOf o value).Fits definitions depthPerByte 21 n 0 := by
  have ws : whitespace.Fits definitions depthPerByte 20 n 0 :=
    (fits_whitespace (by decide)).weaken (by omega)
  have ends : (endOfInput : Pattern Link).Fits definitions depthPerByte 20 n 0 :=
    fits_endOfInput.weaken (by omega)
  rw [documentOf]
  split
  · refine fits_concat_of_forall ?_
    simp only [List.forall_mem_cons]
    exact ⟨ws, hv n, ws, ends, by simp⟩
  · refine fits_concat_of_forall ?_
    simp only [List.forall_mem_cons]
    exact ⟨hv n, ends, by simp⟩

variable (hd : Defines o definitions)

include hd

/-- The object rule fits if values fit behind its brace. -/
theorem fits_object {link : Link} (hl : link.rule = ⟨0, 1⟩)
    (h : 1 ≤ n → (refer (.weak ⟨0, 0⟩)).Fits definitions depthPerByte 20 (n - 1) 0) :
    (refer link).Fits definitions depthPerByte 13 n 0 := by
  refine fits_refer ((hd link).2.1 hl) (fits_context (fits_bracketed fun hn => ?_) _)
  refine fits_concat_of_forall ?_
  simp only [List.forall_mem_cons]
  have ws : whitespace.Fits definitions depthPerByte 20 (n - 1) 0 :=
    (fits_whitespace (by decide)).weaken (by omega)
  exact ⟨ws, (fits_stringFor _).weaken (by omega), ws, (fits_char _).weaken (by omega), ws, h hn,
    ws, by simp⟩

/-- The array rule fits if values fit behind its bracket. -/
theorem fits_array {link : Link} (hl : link.rule = ⟨0, 2⟩)
    (h : 1 ≤ n → (refer (.weak ⟨0, 0⟩)).Fits definitions depthPerByte 20 (n - 1) 0) :
    (refer link).Fits definitions depthPerByte 13 n 0 := by
  refine fits_refer ((hd link).2.2 hl) (fits_context (fits_bracketed fun hn => ?_) _)
  refine fits_concat_of_forall ?_
  simp only [List.forall_mem_cons]
  have ws : whitespace.Fits definitions depthPerByte 20 (n - 1) 0 :=
    (fits_whitespace (by decide)).weaken (by omega)
  exact ⟨ws, h hn, ws, by simp⟩

/-- The value rule fits: objects and arrays have values on shorter inputs only. -/
theorem fits_value (n : Nat) {link : Link} (hl : link.rule = ⟨0, 0⟩) :
    (refer link).Fits definitions depthPerByte 20 n 0 := by
  induction n using Nat.strongRecOn generalizing link with
  | ind n ih =>
    have inner (hn : 1 ≤ n) :
        (refer (.weak ⟨0, 0⟩)).Fits definitions depthPerByte 20 (n - 1) 0 :=
      ih (n - 1) (by omega) rfl
    have choices : (firstOf ([stringFor o, number, .refer (.weak ⟨0, 1⟩), .refer (.weak ⟨0, 2⟩)] ++
        literalsFor o)).Fits definitions depthPerByte 14 n 0 := by
      refine fits_firstOf ?_
      rw [List.forall_mem_append]
      constructor
      · simp only [List.forall_mem_cons]
        exact ⟨(fits_stringFor _).weaken (by omega), (fits_number (by decide)).weaken (by omega),
          fits_object hd rfl inner, fits_array hd rfl inner, by simp⟩
      · rw [literalsFor]
        split
        · simp only [List.forall_mem_cons]
          exact ⟨(fits_literal _).weaken (by omega), (fits_literal _).weaken (by omega),
            (fits_literal _).weaken (by omega), by simp⟩
        · simp
    exact (fits_refer ((hd link).1 hl) (fits_label choices _)).weaken (by omega)

end Rules

/-- The depth that is enough for an input of `size` bytes. -/
def depthFor (size : Nat) : Nat :=
  depthPerByte * size + 32

/-- Every entry point fits with the grammar that is made for it. -/
theorem fits_prepare {o : Options} {entry : Entry} {m : Matcher}
    (h : entry.prepare o .empty = .ok m) (n : Nat) :
    m.pattern.Fits m.scope.definitions depthPerByte 21 n 0 := by
  have hd := defines_finished o
  have value (n : Nat) := fits_value hd n (show (Link.strong ⟨0, 0⟩).rule = ⟨0, 0⟩ from rfl)
  have inner (hn : 1 ≤ n) := fits_value hd (n - 1) (show (Link.weak ⟨0, 0⟩).rule = ⟨0, 0⟩ from rfl)
  cases entry with
  | number => cases h; exact (fits_number (by decide)).weaken (by omega)
  | string => cases h; exact (fits_stringOf (by decide) _).weaken (by omega)
  | strictString => cases h; exact (fits_stringOf (by decide) _).weaken (by omega)
  | whitespace => cases h; exact (fits_whitespace (by decide)).weaken (by omega)
  | value =>
    rw [Entry.prepare_value] at h
    cases h
    exact (value n).weaken (by omega)
  | object =>
    rw [Entry.prepare_object] at h
    cases h
    exact (fits_object hd rfl inner).weaken (by omega)
  | array =>
    rw [Entry.prepare_array] at h
    cases h
    exact (fits_array hd rfl inner).weaken (by omega)
  | document =>
    rw [Entry.prepare_document] at h
    cases h
    have keeps : (documentOf o (.refer (.strong ⟨0, 0⟩))).keeps = [0] := by
      rw [documentOf]
      split <;> rfl
    rw [Matcher.scope, keeps]
    exact fits_documentOf value n

/-- What has to match the whole input keeps the same tables. -/
theorem keeps_complete (p : Pattern Link) : p.complete.keeps = p.keeps := by
  simp [keeps, complete, references, referencesOfAll]

/-- To require the whole input changes nothing in what is held. -/
theorem scope_complete (m : Matcher) : m.complete.scope = m.scope := by
  rw [Matcher.scope, Matcher.scope, Matcher.complete, keeps_complete]

/-- Every matcher fits, strict or not. -/
theorem fits_matcher {o : Options} {entry : Entry} {strict : Bool} {m : Matcher}
    (h : entry.matcher o strict = .ok m) (n : Nat) :
    m.pattern.Fits m.scope.definitions depthPerByte 22 n 0 := by
  rw [Entry.matcher] at h
  cases hp : entry.prepare o .empty with
  | error e => rw [hp] at h; cases h
  | ok m' =>
    rw [hp] at h
    have fits := fits_prepare hp n
    cases strict with
    | false => cases h; exact fits.weaken (by omega)
    | true =>
      cases h
      show m'.pattern.complete.Fits m'.complete.scope.definitions depthPerByte 22 n 0
      rw [scope_complete]
      refine fits_concat_of_forall ?_
      simp only [List.forall_mem_cons]
      exact ⟨fits, fits_endOfInput.weaken (by omega), by simp⟩

/-- Every entry point comes to an outcome on every input. -/
theorem isSome_parse? {o : Options} {entry : Entry} {strict : Bool} {m : Matcher}
    (h : entry.matcher o strict = .ok m) (input : Slice) :
    (m.parse? (depthFor input.size) input).isSome := by
  obtain ⟨out, ho, _⟩ := (fits_matcher h input.size).run (Nat.le_refl _)
    (show depthPerByte * input.size + 22 ≤ depthFor input.size by rw [depthFor]; omega)
  rw [Matcher.parse?, parse?_eq_run, ho]
  rfl

end Json

end Recognizer
