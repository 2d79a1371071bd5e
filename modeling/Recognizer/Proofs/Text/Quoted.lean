import Mathlib.Tactic.Lemma
import Mathlib.Tactic.SplitIfs
import Recognizer.Text.Quoted

/-!
# Reading quoted texts

A quoted text can be told from whatever follows it. Characters are written in three ways
(`Written`), none of which goes on where another one ends (`Written.append_inj`), so a text and what
comes behind its closing quote are both determined (`quoteChars_append_inj`). Numbers end where
their digits do (`append_inj_of_head`).
-/

namespace Recognizer.Text

variable {b m n : Nat}

/-- Each digit is that of one number. -/
lemma digitChar_inj : ∀ m < 16, ∀ n < 16, m.digitChar = n.digitChar → m = n := by
  decide

/-- The last digit, and those before it. -/
lemma toDigits_eq_append (two : 1 < b) (n : Nat) :
    b.toDigits n = (if n < b then [] else b.toDigits (n / b)) ++ [(n % b).digitChar] := by
  rw [Nat.toDigits_eq_if two]
  split
  · next lt => rw [Nat.mod_eq_of_lt lt, List.nil_append]
  · rfl

/-- Different numbers have different digits. -/
lemma toDigits_inj (two : 1 < b) (sixteen : b ≤ 16) (h : b.toDigits m = b.toDigits n) :
    m = n := by
  induction m using Nat.strongRecOn generalizing n with
  | ind m ih =>
    have split := h
    rw [toDigits_eq_append two m, toDigits_eq_append two n, List.append_singleton_inj] at split
    obtain ⟨front, last⟩ := split
    have lt (k : Nat) : k % b < 16 := Nat.lt_of_lt_of_le (Nat.mod_lt k (by omega)) sixteen
    have rem : m % b = n % b := digitChar_inj _ (lt m) _ (lt n) last
    have quot : m / b = n / b := by
      split_ifs at front with small small' small'
      · rw [Nat.div_eq_of_lt small, Nat.div_eq_of_lt small']
      · exact absurd front.symm Nat.toDigits_ne_nil
      · exact absurd front Nat.toDigits_ne_nil
      · exact ih _ (Nat.div_lt_self (by omega) two) front
    rw [← Nat.div_add_mod m b, quot, rem, Nat.div_add_mod]

/-- A number is written by its digits. -/
lemma toList_toString (n : Nat) : (toString n).toList = Nat.toDigits 10 n := by
  rw [Nat.toString_eq_ofList_toDigits, String.toList_ofList]

/-- And all of these are digits. -/
lemma isDigit_toDigits (n : Nat) : ∀ c ∈ Nat.toDigits 10 n, c.isDigit = true :=
  fun _ => Nat.isDigit_of_mem_toDigits (by decide) (by decide)

/-- A number begins with a digit. -/
lemma isDigit_head_toDigits (n : Nat) (cs : List Char) :
    ∀ c ∈ (Nat.toDigits 10 n ++ cs).head?, (!c.isDigit) = false := by
  obtain ⟨d, ds, digits⟩ := List.exists_cons_of_ne_nil (Nat.toDigits_ne_nil (n := n) (b := 10))
  have digit : d.isDigit = true := isDigit_toDigits n d (digits ▸ List.mem_cons_self)
  rw [digits]
  rintro c ⟨⟩
  rw [digit]
  rfl

/-- No brace is among the digits. -/
lemma ne_brace_of_mem_toDigits (two : 1 < b) {c : Char} (h : c ∈ b.toDigits n) : c ≠ '\x7d' := by
  induction n using Nat.strongRecOn with
  | ind n ih =>
    rw [toDigits_eq_append two, List.mem_append, List.mem_singleton] at h
    obtain front | rfl := h
    · split_ifs at front with small
      · simp at front
      · exact ih _ (Nat.div_lt_self (by omega) two) front
    · exact Nat.digitChar_ne _ (by decide)

/-- What passes a test up to something that fails it is all that is taken. -/
lemma takeWhile_append_of_head {p : Char → Bool} {as bs : List Char} (ha : ∀ c ∈ as, p c = true)
    (hb : ∀ c ∈ bs.head?, p c = false) : (as ++ bs).takeWhile p = as := by
  rw [List.takeWhile_append_of_pos ha]
  cases bs with
  | nil => exact List.append_nil as
  | cons c bs => rw [List.takeWhile_cons_of_neg (by simp [hb c rfl]), List.append_nil]

/-- A cut where a test fails for the first time is told by the text. -/
lemma append_inj_of_head {p : Char → Bool} {as bs as' bs' : List Char}
    (h : as ++ bs = as' ++ bs') (ha : ∀ c ∈ as, p c = true) (ha' : ∀ c ∈ as', p c = true)
    (hb : ∀ c ∈ bs.head?, p c = false) (hb' : ∀ c ∈ bs'.head?, p c = false) :
    as = as' ∧ bs = bs' := by
  have first : as = as' := by
    rw [← takeWhile_append_of_head ha hb, h, takeWhile_append_of_head ha' hb']
  rw [first, List.append_cancel_left_eq] at h
  exact ⟨first, h⟩

variable {c c' : Char} {w w' rest rest' : List Char}

/-- The characters that are written as a backslash and another character. -/
def marks : List (Char × Char) :=
  [('"', '"'), ('\\', '\\'), ('\x00', '0'), ('\t', 't'), ('\r', 'r'), ('\n', 'n')]

/-- The ways to write a character. -/
inductive Written (c : Char) : List Char → Prop where
  | itself : c ≠ '"' → c ≠ '\\' → Written c [c]
  | marked {mark : Char} : (c, mark) ∈ marks → Written c ['\\', mark]
  | numbered : Written c (codePoint c)

/-- Escaping is one of the ways to write a character. -/
lemma written_escapeChar (c : Char) : Written c (escapeChar c) := by
  rw [escapeChar]
  split_ifs with quote backslash null tab carriage newline shown
  · rw [quote]
    exact .marked (by decide)
  · rw [backslash]
    exact .marked (by decide)
  · rw [null]
    exact .marked (by decide)
  · rw [tab]
    exact .marked (by decide)
  · rw [carriage]
    exact .marked (by decide)
  · rw [newline]
    exact .marked (by decide)
  · exact .itself quote backslash
  · exact .numbered

/-- Each mark is that of one character, and none begins a number. -/
lemma eq_of_mem_marks : ∀ x ∈ marks, x.2 ≠ 'u' ∧ ∀ y ∈ marks, x.2 = y.2 → x.1 = y.1 := by
  decide

/-- A number in braces can be read off the text. -/
lemma codePoint_append_inj (h : codePoint c ++ rest = codePoint c' ++ rest') :
    c = c' ∧ rest = rest' := by
  simp only [codePoint, List.append_assoc, List.append_cancel_left_eq] at h
  have digits (c : Char) : ∀ d ∈ Nat.toDigits 16 c.toNat, decide (d ≠ '\x7d') = true :=
    fun d mem => decide_eq_true (ne_brace_of_mem_toDigits (by decide) mem)
  obtain ⟨same, rests⟩ := append_inj_of_head h (digits c) (digits c') (by simp) (by simp)
  have number : c.toNat = c'.toNat := toDigits_inj (by decide) (by decide) same
  exact ⟨Char.toNat_inj.1 number, List.append_cancel_left rests⟩

/-- What is written first determines the character, and what follows. -/
lemma Written.append_inj (h : Written c w) (h' : Written c' w') (same : w ++ rest = w' ++ rest') :
    c = c' ∧ rest = rest' := by
  cases h with
  | itself quote backslash =>
    cases h' with
    | itself => exact List.cons.inj same
    | marked | numbered => exact absurd (List.cons.inj same).1 backslash
  | @marked mark mem =>
    cases h' with
    | itself _ backslash => exact absurd (List.cons.inj same).1.symm backslash
    | @marked mark' mem' =>
      -- Behind a backslash, the next character tells marks apart, and from numbers.
      obtain ⟨marks, rests⟩ := List.cons.inj (List.cons.inj same).2
      exact ⟨(eq_of_mem_marks _ mem).2 _ mem' marks, rests⟩
    | numbered =>
      have mark : mark = 'u' := (List.cons.inj (List.cons.inj same).2).1
      exact absurd mark (eq_of_mem_marks _ mem).1
  | numbered =>
    cases h' with
    | itself _ backslash => exact absurd (List.cons.inj same).1.symm backslash
    | @marked mark mem =>
      have mark : 'u' = mark := (List.cons.inj (List.cons.inj same).2).1
      exact absurd mark.symm (eq_of_mem_marks _ mem).1
    | numbered => exact codePoint_append_inj same

/-- A closing quote is not taken for a character. -/
lemma Written.append_ne (h : Written c w) : w ++ rest ≠ '"' :: rest' := by
  intro same
  cases h with
  | itself quote _ => exact quote (List.cons.inj same).1
  | marked | numbered => cases (List.cons.inj same).1

/-- A quoted text determines the text, and what follows it. -/
theorem quoteChars_append_inj {cs cs' : List Char}
    (h : quoteChars cs ++ rest = quoteChars cs' ++ rest') : cs = cs' ∧ rest = rest' := by
  simp only [quoteChars, List.cons_append, List.append_assoc, List.cons.injEq, true_and,
    List.nil_append] at h
  induction cs generalizing cs' with
  | nil =>
    cases cs' with
    | nil => exact ⟨rfl, (List.cons.inj h).2⟩
    | cons c' cs' =>
      rw [List.flatMap_cons, List.append_assoc] at h
      exact absurd h.symm (written_escapeChar c').append_ne
  | cons c cs ih =>
    rw [List.flatMap_cons, List.append_assoc] at h
    cases cs' with
    | nil => exact absurd h (written_escapeChar c).append_ne
    | cons c' cs' =>
      rw [List.flatMap_cons, List.append_assoc] at h
      obtain ⟨rfl, behind⟩ := (written_escapeChar c).append_inj (written_escapeChar c') h
      obtain ⟨rfl, rests⟩ := ih behind
      exact ⟨rfl, rests⟩

end Recognizer.Text
