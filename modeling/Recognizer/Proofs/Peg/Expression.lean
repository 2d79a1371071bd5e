import Mathlib.Tactic.Lemma

/-!
# Parsing expressions

The expressions of parsing expression grammars and what they derive on a text: a leading part and
what is left behind it, or a failure. Iteration goes on as long as something is consumed. There need
not be a result at all, since rules may call each other without end.
-/

namespace Recognizer.Peg

/-- Parsing expressions over the rules of a grammar. -/
inductive Expr (ρ : Type) where
  /-- One character that the test accepts. -/
  | char (accepts : Char → Bool)
  | literal (text : List Char)
  | endOfInput
  | empty
  | fail
  /-- `a` and then `b`. -/
  | seq (a b : Expr ρ)
  /-- `a`, or `b` where `a` fails. -/
  | choice (a b : Expr ρ)
  /-- Nothing, where `a` fails. -/
  | not (a : Expr ρ)
  /-- What the rule is defined by. -/
  | rule (rule : ρ)
  /-- `a`, if it consumes something. -/
  | filled (a : Expr ρ)
  /-- `a` again and again, as long as it consumes something. -/
  | star (a : Expr ρ)

/-- What an expression makes of a text. -/
inductive Result where
  /-- `as` is consumed and `bs` is left. -/
  | taken (as bs : List Char)
  | failed

/-- The result on a text of which `as` came before. -/
def Result.behind (as : List Char) : Result → Result
  | taken xs bs => .taken (as ++ xs) bs
  | failed => .failed

/-- Behind nothing the result is the same. -/
@[simp] lemma Result.behind_nil (r : Result) : r.behind [] = r := by
  cases r <;> rfl

/-- What comes before what comes before is put together. -/
lemma Result.behind_behind (as xs : List Char) (r : Result) :
    (r.behind xs).behind as = r.behind (as ++ xs) := by
  cases r with
  | taken ys bs => exact congrArg (Result.taken · bs) (List.append_assoc as xs ys).symm
  | failed => rfl

/-- What is consumed and what is left make up the text. -/
def Result.Splits (cs : List Char) : Result → Prop
  | taken as bs => cs = as ++ bs
  | failed => True

/-- The result behind something splits the longer text. -/
lemma Result.Splits.behind {bs : List Char} {r : Result} (h : r.Splits bs) (as : List Char) :
    (r.behind as).Splits (as ++ bs) := by
  cases r with
  | taken xs ys =>
    cases h
    exact (List.append_assoc as xs ys).symm
  | failed => trivial

/-- What is left behind something is shorter. -/
lemma length_lt_of_split {as bs cs : List Char} (split : cs = as ++ bs) (ne : as ≠ []) :
    bs.length < cs.length := by
  rw [split, List.length_append]
  exact Nat.lt_add_of_pos_left (List.length_pos_iff.2 ne)

variable {ρ : Type}

/-- An expression has a result on a text, by a derivation in which calls of the rules of `g` are
nested at most `depth` deep. -/
inductive DerivesWithin (g : ρ → Expr ρ) : Nat → Expr ρ → List Char → Result → Prop where
  | char {depth : Nat} {accepts : Char → Bool} {c : Char} {bs : List Char} :
    accepts c = true → DerivesWithin g depth (.char accepts) (c :: bs) (.taken [c] bs)
  | char_failed {depth : Nat} {accepts : Char → Bool} {cs : List Char} :
    (∀ c ∈ cs.head?, accepts c = false) → DerivesWithin g depth (.char accepts) cs .failed
  | literal {depth : Nat} {text cs bs : List Char} : cs = text ++ bs →
    DerivesWithin g depth (.literal text) cs (.taken text bs)
  | literal_failed {depth : Nat} {text cs : List Char} : ¬ text <+: cs →
    DerivesWithin g depth (.literal text) cs .failed
  | endOfInput {depth : Nat} : DerivesWithin g depth .endOfInput [] (.taken [] [])
  | endOfInput_failed {depth : Nat} {cs : List Char} : cs ≠ [] →
    DerivesWithin g depth .endOfInput cs .failed
  | empty {depth : Nat} {cs : List Char} : DerivesWithin g depth .empty cs (.taken [] cs)
  | fail {depth : Nat} {cs : List Char} : DerivesWithin g depth .fail cs .failed
  | seq {depth : Nat} {a b : Expr ρ} {cs as bs : List Char} {r : Result} :
    DerivesWithin g depth a cs (.taken as bs) → DerivesWithin g depth b bs r →
    DerivesWithin g depth (.seq a b) cs (r.behind as)
  | seq_failed {depth : Nat} {a b : Expr ρ} {cs : List Char} :
    DerivesWithin g depth a cs .failed → DerivesWithin g depth (.seq a b) cs .failed
  | choice {depth : Nat} {a b : Expr ρ} {cs as bs : List Char} :
    DerivesWithin g depth a cs (.taken as bs) →
    DerivesWithin g depth (.choice a b) cs (.taken as bs)
  | choice_next {depth : Nat} {a b : Expr ρ} {cs : List Char} {r : Result} :
    DerivesWithin g depth a cs .failed → DerivesWithin g depth b cs r →
    DerivesWithin g depth (.choice a b) cs r
  | not {depth : Nat} {a : Expr ρ} {cs : List Char} :
    DerivesWithin g depth a cs .failed → DerivesWithin g depth (.not a) cs (.taken [] cs)
  | not_failed {depth : Nat} {a : Expr ρ} {cs as bs : List Char} :
    DerivesWithin g depth a cs (.taken as bs) → DerivesWithin g depth (.not a) cs .failed
  | rule {depth : Nat} {rule : ρ} {cs : List Char} {r : Result} :
    DerivesWithin g depth (g rule) cs r → DerivesWithin g (depth + 1) (.rule rule) cs r
  | filled {depth : Nat} {a : Expr ρ} {cs as bs : List Char} : as ≠ [] →
    DerivesWithin g depth a cs (.taken as bs) →
    DerivesWithin g depth (.filled a) cs (.taken as bs)
  | filled_empty {depth : Nat} {a : Expr ρ} {cs bs : List Char} :
    DerivesWithin g depth a cs (.taken [] bs) → DerivesWithin g depth (.filled a) cs .failed
  | filled_failed {depth : Nat} {a : Expr ρ} {cs : List Char} :
    DerivesWithin g depth a cs .failed → DerivesWithin g depth (.filled a) cs .failed
  | star {depth : Nat} {a : Expr ρ} {cs as bs : List Char} {r : Result} :
    DerivesWithin g depth (.filled a) cs (.taken as bs) → DerivesWithin g depth (.star a) bs r →
    DerivesWithin g depth (.star a) cs (r.behind as)
  | star_stop {depth : Nat} {a : Expr ρ} {cs : List Char} :
    DerivesWithin g depth (.filled a) cs .failed →
    DerivesWithin g depth (.star a) cs (.taken [] cs)

/-- An expression has a result on a text. -/
def Derives (g : ρ → Expr ρ) (e : Expr ρ) (cs : List Char) (r : Result) : Prop :=
  ∃ depth, DerivesWithin g depth e cs r

namespace DerivesWithin

variable {g : ρ → Expr ρ} {depth : Nat} {a b e : Expr ρ} {cs as bs : List Char} {r : Result}

/-- A derivation stays one when calls may nest deeper. -/
lemma succ (h : DerivesWithin g depth e cs r) : DerivesWithin g (depth + 1) e cs r := by
  induction h with
  | char h => exact .char h
  | char_failed h => exact .char_failed h
  | literal h => exact .literal h
  | literal_failed h => exact .literal_failed h
  | endOfInput => exact .endOfInput
  | endOfInput_failed h => exact .endOfInput_failed h
  | empty => exact .empty
  | fail => exact .fail
  | seq _ _ iha ihb => exact .seq iha ihb
  | seq_failed _ ih => exact .seq_failed ih
  | choice _ ih => exact .choice ih
  | choice_next _ _ iha ihb => exact .choice_next iha ihb
  | not _ ih => exact .not ih
  | not_failed _ ih => exact .not_failed ih
  | rule _ ih => exact .rule ih
  | filled ne _ ih => exact .filled ne ih
  | filled_empty _ ih => exact .filled_empty ih
  | filled_failed _ ih => exact .filled_failed ih
  | star _ _ iha ihs => exact .star iha ihs
  | star_stop _ ih => exact .star_stop ih

/-- An expression consumes a leading part of the text. -/
lemma splits (h : DerivesWithin g depth e cs r) : r.Splits cs := by
  induction h with
  | char _ => exact rfl
  | literal h => exact h
  | endOfInput => exact rfl
  | empty => exact rfl
  | seq _ _ iha ihb =>
    cases iha
    exact ihb.behind _
  | choice _ ih => exact ih
  | choice_next _ _ _ ih => exact ih
  | not _ _ => exact rfl
  | rule _ ih => exact ih
  | filled _ _ ih => exact ih
  | star _ _ iha ihs =>
    cases iha
    exact ihs.behind _
  | star_stop _ _ => exact rfl
  | _ => trivial

/-- An expression has at most one result on a text. -/
theorem unique {depth' : Nat} {r' : Result} (h : DerivesWithin g depth e cs r)
    (h' : DerivesWithin g depth' e cs r') : r = r' := by
  -- The induction is on the first derivation; each case asks which rules can end the second.
  induction h generalizing depth' r' with
  | char hc =>
    cases h' with
    | char => rfl
    | char_failed hf => exact absurd (hf _ rfl) (by simp [hc])
  | char_failed hf =>
    cases h' with
    | char hc => exact absurd (hf _ rfl) (by simp [hc])
    | char_failed => rfl
  | literal hc =>
    cases h' with
    | literal hc' => rw [List.append_cancel_left (hc.symm.trans hc')]
    | literal_failed hf => exact absurd ⟨_, hc.symm⟩ hf
  | literal_failed hf =>
    cases h' with
    | literal hc => exact absurd ⟨_, hc.symm⟩ hf
    | literal_failed => rfl
  | endOfInput =>
    cases h' with
    | endOfInput => rfl
    | endOfInput_failed ne => exact absurd rfl ne
  | endOfInput_failed ne =>
    cases h' with
    | endOfInput => exact absurd rfl ne
    | endOfInput_failed => rfl
  | empty =>
    cases h' with
    | empty => rfl
  | fail =>
    cases h' with
    | fail => rfl
  | seq _ _ iha ihb =>
    cases h' with
    | seq ha hb =>
      cases iha ha
      rw [ihb hb]
    | seq_failed ha => cases iha ha
  | seq_failed _ iha =>
    cases h' with
    | seq ha _ => cases iha ha
    | seq_failed _ => rfl
  | choice _ iha =>
    cases h' with
    | choice ha => exact iha ha
    | choice_next ha _ => cases iha ha
  | choice_next _ _ iha ihb =>
    cases h' with
    | choice ha => cases iha ha
    | choice_next _ hb => exact ihb hb
  | not _ iha =>
    cases h' with
    | not _ => rfl
    | not_failed ha => cases iha ha
  | not_failed _ iha =>
    cases h' with
    | not ha => cases iha ha
    | not_failed _ => rfl
  | rule _ ih =>
    cases h' with
    | rule h => exact ih h
  | filled ne _ iha =>
    cases h' with
    | filled _ ha => exact iha ha
    | filled_empty ha =>
      cases iha ha
      exact absurd rfl ne
    | filled_failed ha => cases iha ha
  | filled_empty _ iha =>
    cases h' with
    | filled ne ha =>
      cases iha ha
      exact absurd rfl ne
    | filled_empty _ => rfl
    | filled_failed _ => rfl
  | filled_failed _ iha =>
    cases h' with
    | filled _ ha => cases iha ha
    | filled_empty _ => rfl
    | filled_failed _ => rfl
  | star _ _ iha ihs =>
    cases h' with
    | star ha hs =>
      cases iha ha
      rw [ihs hs]
    | star_stop ha => cases iha ha
  | star_stop _ iha =>
    cases h' with
    | star ha _ => cases iha ha
    | star_stop _ => rfl

/-- What must consume something derives all that its body does. -/
lemma filled_mono (h : ∀ r, DerivesWithin g depth a cs r → DerivesWithin g depth b cs r)
    (ha : DerivesWithin g depth (.filled a) cs r) : DerivesWithin g depth (.filled b) cs r := by
  cases ha with
  | filled ne ha => exact .filled ne (h _ ha)
  | filled_empty ha => exact .filled_empty (h _ ha)
  | filled_failed ha => exact .filled_failed (h _ ha)

/-- How a sequence comes to its result. -/
lemma seq_cases (h : DerivesWithin g depth (.seq a b) cs r) :
    (∃ as bs r', DerivesWithin g depth a cs (.taken as bs) ∧ DerivesWithin g depth b bs r' ∧
      r = r'.behind as) ∨ DerivesWithin g depth a cs .failed ∧ r = .failed := by
  cases h with
  | seq ha hb => exact .inl ⟨_, _, _, ha, hb, rfl⟩
  | seq_failed ha => exact .inr ⟨ha, rfl⟩

/-- What comes behind a condition that nothing may fulfil. -/
lemma not_seq_cases (h : DerivesWithin g depth (.seq (.not a) b) cs r) :
    DerivesWithin g depth a cs .failed ∧ DerivesWithin g depth b cs r ∨
      (∃ as bs, DerivesWithin g depth a cs (.taken as bs)) ∧ r = .failed := by
  obtain ⟨as, bs, r', ha, hb, rfl⟩ | ⟨ha, rfl⟩ := h.seq_cases
  · cases ha with
    | not ha =>
      rw [r'.behind_nil]
      exact .inl ⟨ha, hb⟩
  · cases ha with
    | not_failed ha => exact .inr ⟨⟨_, _, ha⟩, rfl⟩

/-- A condition that nothing fulfils may be left out. -/
lemma not_seq_iff (h : DerivesWithin g depth a cs .failed) :
    DerivesWithin g depth (.seq (.not a) b) cs r ↔ DerivesWithin g depth b cs r := by
  constructor
  · intro hb
    obtain ⟨_, hb⟩ | ⟨⟨as, bs, ha⟩, _⟩ := hb.not_seq_cases
    · exact hb
    · cases h.unique ha
  · intro hb
    have behind := DerivesWithin.seq (.not h) hb
    rwa [Result.behind_nil] at behind

/-- An iteration never fails. -/
lemma star_ne_failed (h : DerivesWithin g depth (.star a) cs r) : r ≠ .failed := by
  generalize he : Expr.star a = e at h
  induction h with
  | @star _ _ _ _ _ r _ _ _ ih =>
    cases r with
    | taken xs ys => exact nofun
    | failed => exact absurd rfl (ih he)
  | star_stop _ _ => exact nofun
  | _ => cases he

/-- One more round before an iteration and what follows it. -/
lemma star_seq (ha : DerivesWithin g depth (.filled a) cs (.taken as bs))
    (h : DerivesWithin g depth (.seq (.star a) b) bs r) :
    DerivesWithin g depth (.seq (.star a) b) cs (r.behind as) := by
  obtain ⟨as', bs', r', hs, hb, rfl⟩ | ⟨hs, _⟩ := h.seq_cases
  · rw [Result.behind_behind]
    exact .seq (.star ha hs) hb
  · exact absurd rfl hs.star_ne_failed

/-- An iteration and what follows it: one more round, or what follows. -/
lemma star_seq_cases (h : DerivesWithin g depth (.seq (.star a) b) cs r) :
    (∃ as bs r', DerivesWithin g depth (.filled a) cs (.taken as bs) ∧
      DerivesWithin g depth (.seq (.star a) b) bs r' ∧ r = r'.behind as) ∨
    DerivesWithin g depth (.filled a) cs .failed ∧ DerivesWithin g depth b cs r := by
  obtain ⟨as, bs, r', hs, hb, rfl⟩ | ⟨hs, _⟩ := h.seq_cases
  · generalize hr : Result.taken as bs = taken at hs
    cases hs with
    | @star _ _ _ as' bs' r'' ha hs =>
      cases r'' with
      | failed => cases hr
      | taken as'' bs'' =>
        cases hr
        exact .inl ⟨as', bs', _, ha, .seq hs hb, (Result.behind_behind as' as'' r').symm⟩
    | star_stop ha =>
      cases hr
      rw [r'.behind_nil]
      exact .inr ⟨ha, hb⟩
  · exact absurd rfl hs.star_ne_failed

end DerivesWithin

namespace Expr

/-- At most `n` times `a`, as long as it consumes something. -/
def atMost (a : Expr ρ) : Nat → Expr ρ
  | 0 => .empty
  | n + 1 => .choice (.seq (.filled a) (a.atMost n)) .empty

/-- `min` times `a`, each time with something consumed, and then as often as it consumes something,
up to `max` times in all. If there is no room for `min` times, it fails after `max` times. -/
def between (a : Expr ρ) : Nat → Option Nat → Expr ρ
  | 0, none => .star a
  | 0, some max => a.atMost max
  | min + 1, none => .seq (.filled a) (a.between min none)
  | _ + 1, some 0 => .fail
  | min + 1, some (max + 1) => .seq (.filled a) (a.between min (some max))

/-- `a`, where neither `stop` succeeds nor the input ends. -/
def round (stop a : Expr ρ) : Expr ρ :=
  .seq (.not stop) (.seq (.not .endOfInput) a)

/-- `a` again and again up to the first place where `stop` succeeds, and `stop` itself. At the end
of the input `a` is not tried. -/
def upTo (stop a : Expr ρ) : Expr ρ :=
  .seq (.star (.round stop a)) stop

end Expr

namespace DerivesWithin

variable {g : ρ → Expr ρ} {depth : Nat} {a : Expr ρ} {cs as bs : List Char} {r : Result}
  {min : Nat} {max : Option Nat}

/-- Enough rounds have been made, so failing to make another does no harm. -/
lemma between_zero_ne_failed (h : DerivesWithin g depth (a.between 0 max) cs r) : r ≠ .failed := by
  match max with
  | none => exact h.star_ne_failed
  | some 0 =>
    cases h with
    | empty => exact nofun
  | some (max + 1) =>
    cases h with
    | choice h => exact nofun
    | choice_next _ h =>
      cases h with
      | empty => exact nofun

/-- One more round, if there is room for it. -/
lemma between_more (room : max ≠ some 0) (ha : DerivesWithin g depth (.filled a) cs (.taken as bs))
    (h : DerivesWithin g depth (a.between (min - 1) (max.map (· - 1))) bs r) :
    DerivesWithin g depth (a.between min max) cs (r.behind as) := by
  match min, max with
  | 0, none => exact .star ha h
  | 0, some 0 => exact absurd rfl room
  | 0, some (max + 1) =>
    cases r with
    | taken xs ys => exact .choice (.seq ha h)
    | failed => exact absurd rfl h.between_zero_ne_failed
  | min + 1, none => exact .seq ha h
  | min + 1, some 0 => exact absurd rfl room
  | min + 1, some (max + 1) => exact .seq ha h

/-- No round is left to make, or the next one fails. -/
lemma between_stop (stop : max = some 0 ∨ DerivesWithin g depth (.filled a) cs .failed) :
    DerivesWithin g depth (a.between 0 max) cs (.taken [] cs) := by
  match max with
  | none => exact .star_stop (stop.resolve_left nofun)
  | some 0 => exact .empty
  | some (max + 1) => exact .choice_next (.seq_failed (stop.resolve_left nofun)) .empty

/-- Where rounds are wanted and none can be made, there is failure. -/
lemma between_failed (stop : max = some 0 ∨ DerivesWithin g depth (.filled a) cs .failed) :
    DerivesWithin g depth (a.between (min + 1) max) cs .failed := by
  match max with
  | none => exact .seq_failed (stop.resolve_left nofun)
  | some 0 => exact .fail
  | some (max + 1) => exact .seq_failed (stop.resolve_left nofun)

/-- How a bounded iteration comes to its result. -/
lemma between_cases (h : DerivesWithin g depth (a.between min max) cs r) :
    (max ≠ some 0 ∧ ∃ as bs r', DerivesWithin g depth (.filled a) cs (.taken as bs) ∧
      DerivesWithin g depth (a.between (min - 1) (max.map (· - 1))) bs r' ∧ r = r'.behind as) ∨
    (max = some 0 ∨ DerivesWithin g depth (.filled a) cs .failed) ∧
      r = if min = 0 then .taken [] cs else .failed := by
  match min, max with
  | 0, none =>
    -- Rounds without end are an iteration, which stops where the body fails or consumes nothing.
    cases h with
    | star ha hs => exact .inl ⟨nofun, _, _, _, ha, hs, rfl⟩
    | star_stop ha => exact .inr ⟨.inr ha, rfl⟩
  | 0, some 0 =>
    cases h with
    | empty => exact .inr ⟨.inl rfl, rfl⟩
  | 0, some (max + 1) =>
    cases h with
    | choice h =>
      obtain ⟨as, bs, r', ha, hb, hr⟩ | ⟨_, hr⟩ := h.seq_cases
      · exact .inl ⟨nofun, as, bs, r', ha, hb, hr⟩
      · cases hr
    | choice_next h he =>
      cases he with
      | empty =>
        obtain ⟨as, bs, r', _, hb, hr⟩ | ⟨ha, _⟩ := h.seq_cases
        · cases r' with
          | taken _ _ => cases hr
          | failed =>
            -- No more rounds are called for, so the rest cannot have failed.
            have rounds : DerivesWithin g depth (a.between 0 (some max)) bs .failed := hb
            exact absurd rfl rounds.between_zero_ne_failed
        · exact .inr ⟨.inr ha, rfl⟩
  | min + 1, none =>
    obtain ⟨as, bs, r', ha, hb, hr⟩ | ⟨ha, hr⟩ := h.seq_cases
    · exact .inl ⟨nofun, as, bs, r', ha, hb, hr⟩
    · exact .inr ⟨.inr ha, hr⟩
  | min + 1, some 0 =>
    cases h with
    | fail => exact .inr ⟨.inl rfl, rfl⟩
  | min + 1, some (max + 1) =>
    obtain ⟨as, bs, r', ha, hb, hr⟩ | ⟨ha, hr⟩ := h.seq_cases
    · exact .inl ⟨by simp, as, bs, r', ha, hb, hr⟩
    · exact .inr ⟨.inr ha, hr⟩

/-- Without room for enough rounds there is no other result than failure. -/
lemma between_failed_of_lt {max : Nat} (lt : max < min)
    (h : DerivesWithin g depth (a.between min (some max)) cs r) : r = .failed := by
  induction max generalizing min cs r with
  | zero =>
    obtain ⟨room, _⟩ | ⟨_, hr⟩ := h.between_cases
    · exact absurd rfl room
    · rwa [if_neg (Nat.ne_zero_of_lt lt)] at hr
  | succ max ih =>
    obtain ⟨_, as, bs, r', _, more, rfl⟩ | ⟨_, hr⟩ := h.between_cases
    · cases ih (Nat.lt_sub_of_add_lt lt) more
      rfl
    · rwa [if_neg (Nat.ne_zero_of_lt lt)] at hr

variable {stop : Expr ρ}

/-- What is derived where neither the stop nor the end of the input has come. -/
lemma round_iff (h : DerivesWithin g depth stop cs .failed) (hcs : cs ≠ []) :
    DerivesWithin g depth (.round stop a) cs r ↔ DerivesWithin g depth a cs r :=
  (not_seq_iff h).trans (not_seq_iff (.endOfInput_failed hcs))

/-- Where the stop fails before the end, a round is what its body is. -/
lemma filled_round_iff (h : DerivesWithin g depth stop cs .failed) (hcs : cs ≠ []) :
    DerivesWithin g depth (.filled (.round stop a)) cs r ↔
      DerivesWithin g depth (.filled a) cs r :=
  ⟨.filled_mono fun _ => (round_iff h hcs).1, .filled_mono fun _ => (round_iff h hcs).2⟩

/-- A round is made only where neither the stop nor the end of the input has come. -/
lemma of_round (h : DerivesWithin g depth (.round stop a) cs (.taken as bs)) :
    DerivesWithin g depth stop cs .failed ∧ cs ≠ [] := by
  obtain ⟨hs, h⟩ | ⟨_, hr⟩ := h.not_seq_cases
  · obtain ⟨he, _⟩ | ⟨_, hr⟩ := h.not_seq_cases
    · cases he with
      | endOfInput_failed hcs => exact ⟨hs, hcs⟩
    · cases hr
  · cases hr

/-- A scan ends where its stop succeeds. -/
lemma upTo_stop (h : DerivesWithin g depth stop cs (.taken as bs)) :
    DerivesWithin g depth (.upTo stop a) cs (.taken as bs) :=
  .seq (.star_stop (.filled_failed (.seq_failed (.not_failed h)))) h

/-- At the end of the input only the stop is tried. -/
lemma upTo_failed_nil (h : DerivesWithin g depth stop [] .failed) :
    DerivesWithin g depth (.upTo stop a) [] .failed :=
  .seq (.star_stop (.filled_failed (.seq (.not h) (.seq_failed (.not_failed .endOfInput))))) h

/-- Where stop and body fail there is failure. -/
lemma upTo_failed (h : DerivesWithin g depth stop cs .failed) (hcs : cs ≠ [])
    (ha : DerivesWithin g depth (.filled a) cs .failed) :
    DerivesWithin g depth (.upTo stop a) cs .failed :=
  .seq (.star_stop ((filled_round_iff h hcs).2 ha)) h

/-- Where the stop fails and the body does not, it goes on behind the body. -/
lemma upTo_more (h : DerivesWithin g depth stop cs .failed) (hcs : cs ≠ [])
    (ha : DerivesWithin g depth (.filled a) cs (.taken as bs))
    (more : DerivesWithin g depth (.upTo stop a) bs r) :
    DerivesWithin g depth (.upTo stop a) cs (r.behind as) :=
  .star_seq ((filled_round_iff h hcs).2 ha) more

/-- To guard the rounds by the end of the input takes no result away. -/
lemma upTo_of_unguarded
    (h : DerivesWithin g depth (.seq (.star (.seq (.not stop) a)) stop) cs r) :
    DerivesWithin g depth (.upTo stop a) cs r := by
  induction n : cs.length using Nat.strongRecOn generalizing cs r with
  | ind n ih =>
  subst n
  obtain ⟨as, bs, r', round, more, rfl⟩ | ⟨round, h⟩ := h.star_seq_cases
  · cases round with
    | filled ne round =>
      have split : cs = as ++ bs := round.splits
      have hcs : cs ≠ [] := fun nil => ne (List.append_eq_nil_iff.1 (split.symm.trans nil)).1
      obtain ⟨hstop, ha⟩ | ⟨_, hr⟩ := round.not_seq_cases
      · exact .upTo_more hstop hcs (.filled ne ha) (ih _ (length_lt_of_split split ne) more rfl)
      · cases hr
  · cases r with
    | taken as bs => exact .upTo_stop h
    | failed =>
      by_cases hcs : cs = []
      · subst hcs
        exact .upTo_failed_nil h
      · exact .upTo_failed h hcs (.filled_mono (fun _ => (not_seq_iff h).1) round)

end DerivesWithin

end Recognizer.Peg
