import Mathlib.Data.List.Nodup
import Recognizer.Proofs.Json.Lexing

/-!
# The choices for a value

Each choice for a value is of a kind of its own, and no two kinds start with the same character. So
at most one choice gets beyond the first character of a text, and the others decline
(`exists_choice`).
-/

namespace Recognizer.Json

open Text

variable {definitions : Link → Resolution Link} {o : Options} {lists : Bracket → Pattern Link}
  {c : Char} {cs : List Char}

/-- A number can start with the character. -/
def StartsNumber (d : Char) : Prop :=
  d = '-' ∨ CharClass.digit.accepts d = true

/-- No number starts with a character that is neither minus nor digit. -/
lemma StartsNumber.ne {d d' : Char} (h : StartsNumber d) (minus : d' ≠ '-')
    (digit : CharClass.digit.accepts d' = false) : d ≠ d' := by
  rcases h with rfl | accepted
  · exact minus.symm
  · exact CharClass.ne_of_accepts accepted digit

/-- Numbers decline all other starts. -/
lemma declines_number_of_not_starts (h : ∀ c ∈ cs.head?, ¬ StartsNumber c) :
    (number : Pattern Link).Declines definitions cs := by
  refine declines_number (fun minus => h '-' minus (.inl rfl)) fun c hc => ?_
  exact Bool.eq_false_iff.2 fun digit => h c hc (.inr digit)

/-- The kinds of values. -/
inductive Kind where
  | string
  | number
  | list (b : Bracket)
  | literal (text : String)
  deriving DecidableEq

namespace Kind

/-- A value of the kind can start with the character. -/
def Starts (c : Char) : Kind → Prop
  | string => c = '"'
  | number => StartsNumber c
  | list b => c = b.opening
  | literal text => c ∈ text.toList.head?

/-- The choice of the kind, given the patterns for lists. -/
def pattern (o : Options) (lists : Bracket → Pattern Link) : Kind → Pattern Link
  | string => stringOf o.plain
  | number => Json.number
  | list b => lists b
  | literal text => .literal text

end Kind

/-- The kinds in the order in which they are tried. -/
def kinds (o : Options) : List Kind :=
  [.string, .number, .list .curly, .list .square] ++
    if o.literals then [.literal "true", .literal "false", .literal "null"] else []

/-- The choices for a value. -/
def choices (o : Options) (lists : Bracket → Pattern Link) : List (Pattern Link) :=
  [stringOf o.plain, number, lists .curly, lists .square]

/-- The choices are those of the kinds, in their order. -/
lemma choices_eq (o : Options) (lists : Bracket → Pattern Link) :
    choices o lists ++ literalsFor o = (kinds o).map (Kind.pattern o lists) := by
  rw [kinds, literalsFor]
  split <;> rfl

/-- No kind is tried twice. -/
lemma nodup_kinds (o : Options) : (kinds o).Nodup := by
  rw [kinds]
  split <;> decide

namespace Kind

variable {k k' : Kind}

/-- Literals are words, if they are in force. -/
lemma word_of_mem {text : String} (h : .literal text ∈ kinds o) :
    o.literals = true ∧ text.toList ∈ literalWords := by
  rw [kinds] at h
  split at h
  · next enabled =>
    simp only [List.cons_append, List.nil_append, List.mem_cons, literal.injEq, List.not_mem_nil,
      or_false, reduceCtorEq, false_or] at h
    refine ⟨enabled, ?_⟩
    rcases h with rfl | rfl | rfl <;> decide
  · simp at h

/-- Each literal word is of a kind. -/
lemma exists_literal {word : List Char} (enabled : o.literals = true) (h : word ∈ literalWords) :
    ∃ text, .literal text ∈ kinds o ∧ text.toList = word := by
  simp only [kinds, enabled, if_true]
  simp only [literalWords, List.mem_cons, List.not_mem_nil, or_false] at h
  rcases h with rfl | rfl | rfl
  · exact ⟨"true", by decide, rfl⟩
  · exact ⟨"false", by decide, rfl⟩
  · exact ⟨"null", by decide, rfl⟩

/-- Literals have more than one character. -/
lemma exists_cons_of_mem {text : String} (h : .literal text ∈ kinds o) :
    ∃ c next rest, text.toList = c :: next :: rest := by
  have word := (word_of_mem h).2
  simp only [literalWords, List.mem_cons, List.not_mem_nil, or_false] at word
  rcases word with e | e | e <;> exact ⟨_, _, _, e⟩

/-- A choice declines where no value of its kind starts. -/
lemma declines (hk : k ∈ kinds o) (h : ∀ c ∈ cs.head?, ¬ k.Starts c)
    (hd : ∀ b : Bracket, b.opening ∉ cs.head? → (lists b).Declines definitions cs) :
    (k.pattern o lists).Declines definitions cs := by
  cases k with
  | string => exact declines_string fun quote => h '"' quote rfl
  | number => exact declines_number_of_not_starts h
  | list b => exact hd b fun opening => h _ opening rfl
  | literal text =>
    obtain ⟨c, next, rest, word⟩ := exists_cons_of_mem hk
    refine Pattern.declines_literal ?_
    rw [word]
    rintro ⟨bs, rfl⟩
    exact h c rfl (by rw [Starts, word]; rfl)

/-- The kind of the values that start with the character. -/
def of? (c : Char) : Option Kind :=
  if c = '"' then some .string
  else if c = '-' ∨ CharClass.digit.accepts c = true then some .number
  else if c = '\x7b' then some (.list .curly)
  else if c = '[' then some (.list .square)
  else if c = 't' then some (.literal "true")
  else if c = 'f' then some (.literal "false")
  else if c = 'n' then some (.literal "null")
  else none

/-- The kind is told by the first character. -/
lemma Starts.of?_eq (hk : k ∈ kinds o) (h : k.Starts c) : of? c = some k := by
  cases k with
  | string =>
    subst h
    rfl
  | number =>
    have numeric : c = '-' ∨ CharClass.digit.accepts c = true := h
    rw [of?, if_neg (StartsNumber.ne h (by decide) rfl), if_pos numeric]
  | list b =>
    subst h
    cases b <;> rfl
  | literal text =>
    obtain ⟨_, word⟩ := word_of_mem hk
    have text_eq : text = String.ofList text.toList := String.ofList_toList.symm
    simp only [literalWords, List.mem_cons, List.not_mem_nil, or_false] at word
    rw [Starts] at h
    rcases word with e | e | e
    all_goals
      rw [e] at h text_eq
      cases h
      rw [text_eq]
      rfl

/-- No two kinds start with the same character. -/
lemma Starts.unique (hk : k ∈ kinds o) (hk' : k' ∈ kinds o) (h : k.Starts c) (h' : k'.Starts c) :
    k = k' :=
  Option.some.inj ((h.of?_eq hk).symm.trans (h'.of?_eq hk'))

end Kind

/-- At most one choice gets beyond the first character. The others decline. -/
lemma exists_choice (o : Options)
    (hd : ∀ b : Bracket, b.opening ∉ cs.head? → (lists b).Declines definitions cs) :
    (∃ k ∈ kinds o, ∃ c ∈ cs.head?, k.Starts c ∧ ∃ ps qs,
      choices o lists ++ literalsFor o = ps ++ k.pattern o lists :: qs ∧
      (∀ p ∈ ps, p.Declines definitions cs) ∧ ∀ p ∈ qs, p.Declines definitions cs) ∨
    (∀ k ∈ kinds o, ∀ c ∈ cs.head?, ¬ k.Starts c) ∧
      ∀ p ∈ choices o lists ++ literalsFor o, p.Declines definitions cs := by
  rw [choices_eq]
  by_cases h : ∃ k ∈ kinds o, ∃ c ∈ cs.head?, k.Starts c
  · obtain ⟨k, hk, c, hc, starts⟩ := h
    obtain ⟨ks, ks', split⟩ := List.append_of_mem hk
    have nodup := nodup_kinds o
    rw [split, List.nodup_middle, List.nodup_cons, List.mem_append, not_or] at nodup
    -- No two kinds start with the same character, and none stands twice in the list.
    have other {k' : Kind} (hk' : k' ∈ kinds o) (ne : k' ≠ k) :
        (k'.pattern o lists).Declines definitions cs := by
      refine Kind.declines hk' (fun c' hc' starts' => ?_) hd
      cases Option.mem_unique hc hc'
      exact ne (starts'.unique hk' hk starts)
    refine .inl ⟨k, hk, c, hc, starts, ks.map _, ks'.map _, by rw [split, List.map_append]; rfl, ?_⟩
    rw [List.forall_mem_map, List.forall_mem_map]
    refine ⟨fun k' hk' => other (by simp [split, hk']) ?_,
      fun k' hk' => other (by simp [split, hk']) ?_⟩
    · rintro rfl
      exact nodup.1.1 hk'
    · rintro rfl
      exact nodup.1.2 hk'
  · have none (k : Kind) (hk : k ∈ kinds o) (c : Char) (hc : c ∈ cs.head?) : ¬ k.Starts c :=
      fun starts => h ⟨k, hk, c, hc, starts⟩
    refine .inr ⟨none, List.forall_mem_map.2 fun k hk => Kind.declines hk (none k hk) hd⟩

end Recognizer.Json
