import Recognizer.Proofs.Pattern.Verdict

/-!
# The verdicts of the combinators

One rule for each way in which a combinator comes to its verdict, from the verdicts of its parts.
-/

namespace Recognizer

open Text

variable {ρ : Type} {definitions : ρ → Resolution ρ}

/-- What is said where none of the characters comes that are accepted. -/
def Cause.missing : List Char → Cause
  | [] => .noInput
  | _ :: _ => .mismatch

/-- What is rejected behind the start keeps its wording. -/
lemma Rejection.labelled_of_pos {e : Rejection} (h : 0 < e.offset) (message : String) :
    e.labelled message = e :=
  if_neg (Nat.ne_of_gt h)

/-- What commits is refused beyond the reach of a label. -/
lemma Verdict.Commits.labelled {v : Verdict} (h : v.Commits) (message : String) :
    v.mapRejection (·.labelled message) = v := by
  cases v with
  | taken as bs => rfl
  | refused e => exact congrArg Verdict.refused (Rejection.labelled_of_pos h message)

namespace Pattern

variable {p q : Pattern ρ} {as bs cs : List Char} {v : Verdict} {e : Rejection}

/-- A character test accepts what passes. -/
lemma answers_satisfy {accepts : Char → Bool} {ch : Char} (h : accepts ch = true)
    (bs : List Char) :
    (satisfy accepts : Pattern ρ).Answers definitions (ch :: bs) (.taken [ch] bs) := by
  refine answers_of_plan rfl fun input hi => ?_
  have first : input.first? = some ch := hi.first?_eq
  rw [Verdict.outcome_self_taken]
  show Outcome.ofChar accepts input = _
  simp [Outcome.ofChar, first, h]

/-- A character accepts itself. -/
lemma answers_char (d : Char) (bs : List Char) :
    (char d : Pattern ρ).Answers definitions (d :: bs) (.taken [d] bs) := by
  apply answers_satisfy
  exact beq_self_eq_true d

/-- A character that fails the test is a mismatch. -/
lemma refuses_satisfy_cons {accepts : Char → Bool} {ch : Char} (h : accepts ch = false)
    (cs : List Char) :
    (satisfy accepts : Pattern ρ).Answers definitions (ch :: cs)
      (.refused { cause := .mismatch }) := by
  refine answers_of_plan trivial fun input hi => ?_
  have first : input.first? = some ch := hi.first?_eq
  show Outcome.ofChar accepts input = _
  simp [Outcome.ofChar, first, h, Outcome.refuse]

/-- Where no character passes, it is missing. -/
lemma refuses_satisfy_missing (definitions : ρ → Resolution ρ) {accepts : Char → Bool}
    (h : ∀ ch ∈ cs.head?, accepts ch = false) :
    (satisfy accepts : Pattern ρ).Answers definitions cs (.refused { cause := .missing cs }) := by
  cases cs with
  | nil =>
    refine answers_of_plan trivial fun input hi => ?_
    have first : input.first? = none := hi.first?_eq
    show Outcome.ofChar accepts input = _
    simp [Outcome.ofChar, first, Outcome.refuse, Cause.missing]
  | cons ch cs => exact refuses_satisfy_cons (h ch rfl) cs

/-- Either way it is refused at the start. -/
lemma refuses_satisfy (definitions : ρ → Resolution ρ) {accepts : Char → Bool}
    (h : ∀ ch ∈ cs.head?, accepts ch = false) :
    ∃ cause, (satisfy accepts : Pattern ρ).Answers definitions cs (.refused { cause }) :=
  ⟨_, refuses_satisfy_missing definitions h⟩

/-- A character refuses any other. -/
lemma refuses_char_cons {ch d : Char} (h : ch ≠ d) (cs : List Char) :
    (char d : Pattern ρ).Answers definitions (ch :: cs) (.refused { cause := .mismatch }) := by
  apply refuses_satisfy_cons
  exact beq_eq_false_iff_ne.2 h

/-- A character that matches is the first one. -/
lemma spells_of_yields_char {d : Char} {input consumed rest : Slice} (hs : input.Spells cs)
    (h : (Goal.apply (char d) input).Yields definitions (.matched consumed rest)) :
    ∃ bs, cs = d :: bs ∧ rest.Spells bs := by
  by_cases head : cs.head? = some d
  · obtain ⟨bs, rfl⟩ := List.head?_eq_some_iff.1 head
    obtain ⟨_, _, yields, _, _, _, hr, _⟩ := (answers_char d bs).matched hs
    cases h.unique yields
    exact ⟨bs, rfl, hr⟩
  · have other : ∀ ch ∈ cs.head?, (ch == d) = false := fun ch hc =>
      beq_eq_false_iff_ne.2 fun e => head (e ▸ hc)
    obtain ⟨cause, refused⟩ := refuses_satisfy definitions other
    cases h.unique (refused.rejected hs)

/-- A literal accepts its own text. -/
lemma answers_literal (text : String) (bs : List Char) :
    (literal text : Pattern ρ).Answers definitions (text.toList ++ bs)
      (.taken text.toList bs) := by
  refine answers_of_plan rfl fun input hi => ?_
  have starts : input.startsWith text.toList = true := (hi.startsWith_iff _).2 ⟨bs, rfl⟩
  rw [Verdict.outcome_self_taken]
  show Outcome.ofText text input = _
  rw [Outcome.ofText, if_pos starts]

/-- It refuses what does not start so. -/
lemma refuses_literal (definitions : ρ → Resolution ρ) {text : String}
    (h : ¬ text.toList <+: cs) :
    ∃ cause, (literal text : Pattern ρ).Answers definitions cs (.refused { cause }) := by
  have starts {input : Slice} (hi : input.Spells cs) : ¬ input.startsWith text.toList = true := by
    rw [hi.startsWith_iff]
    rintro ⟨rest, rfl⟩
    exact h ⟨rest, rfl⟩
  -- Only the cause depends on how much of the text there is.
  by_cases nil : cs = []
  · refine ⟨.noInput, answers_of_plan trivial fun input hi => ?_⟩
    show Outcome.ofText text input = _
    rw [Outcome.ofText, if_neg (starts hi), if_pos (hi.isEmpty_iff.2 nil)]
    simp [Outcome.refuse]
  · have nonempty {input : Slice} (hi : input.Spells cs) : ¬ input.isEmpty = true :=
      fun he => nil (hi.isEmpty_iff.1 he)
    by_cases lt : byteLength cs < byteLength text.toList
    · refine ⟨.notEnoughInput, answers_of_plan trivial fun input hi => ?_⟩
      have size : byteLength cs = input.size := hi.choose_spec.2
      show Outcome.ofText text input = _
      rw [Outcome.ofText, if_neg (starts hi), if_neg (nonempty hi), if_pos (by omega)]
      simp [Outcome.refuse]
    · refine ⟨.expected text, answers_of_plan trivial fun input hi => ?_⟩
      have size : byteLength cs = input.size := hi.choose_spec.2
      show Outcome.ofText text input = _
      rw [Outcome.ofText, if_neg (starts hi), if_neg (nonempty hi), if_neg (by omega)]
      simp [Outcome.refuse]

/-- The end of the input is accepted where nothing is left. -/
lemma answers_endOfInput :
    (endOfInput : Pattern ρ).Answers definitions [] (.taken [] []) := by
  refine answers_of_plan rfl fun input hi => ?_
  rw [Verdict.outcome_self_taken]
  show Outcome.ofEnd input = _
  rw [Outcome.ofEnd, if_pos (hi.isEmpty_iff.2 rfl), Outcome.empty, Outcome.split, byteLength_nil,
    Slice.splitAt?_zero]

/-- It is refused where something is. -/
lemma refuses_endOfInput (h : cs ≠ []) :
    (endOfInput : Pattern ρ).Answers definitions cs (.refused { cause := .trailingInput }) := by
  refine answers_of_plan trivial fun input hi => ?_
  show Outcome.ofEnd input = _
  rw [Outcome.ofEnd, if_neg fun he => h (hi.isEmpty_iff.1 he)]
  simp [Outcome.refuse]

end Pattern

/-- Apply these parts one after the other. -/
def Course.parts (ps : List (Pattern ρ)) : Course ρ :=
  fun input rest => .ofParts input ps rest

namespace Course

variable {p : Pattern ρ} {ps : List (Pattern ρ)} {as bs cs : List Char} {v : Verdict}
  {e : Rejection}

/-- No parts accept nothing. -/
lemma answers_parts_nil (bs : List Char) :
    (parts [] : Course ρ).Answers definitions bs (.taken [] bs) :=
  answers_nil fun _ _ _ => rfl

/-- The first part is accepted, and the others decide behind it. -/
lemma answers_parts_cons (hp : p.Answers definitions cs (.taken as bs))
    (hps : (parts ps).Answers definitions bs v) :
    (parts (p :: ps)).Answers definitions cs (v.behind as) := by
  refine .behind hp ?_ hps
  intro input rest taken rest' o yields _ _ _ reaches
  exact ⟨_, yields, reaches⟩

/-- The first part is refused, and so is the sequence. -/
lemma refuses_parts_cons (hp : p.Answers definitions cs (.refused e)) (ps : List (Pattern ρ)) :
    (parts (p :: ps)).Answers definitions cs (.refused e) :=
  ⟨trivial, fun _ _ _ hs => ⟨_, hp.rejected hs, rfl⟩⟩

/-- One part decides alone. -/
lemma answers_parts_singleton (hp : p.Answers definitions cs v) :
    (parts [p]).Answers definitions cs v := by
  cases v with
  | refused e => exact refuses_parts_cons hp []
  | taken as bs =>
    have taken := answers_parts_cons hp (answers_parts_nil bs)
    rwa [Verdict.behind, List.append_nil] at taken

/-- A sequence is told by its parts. -/
lemma Answers.concat (h : (parts ps).Answers definitions cs v) :
    (Pattern.concat ps).Answers definitions cs v :=
  h.pattern fun _ => rfl

end Course

namespace Pattern

variable {p q : Pattern ρ} {as bs cs : List Char} {v : Verdict} {e : Rejection}

/-- An optional pattern accepts what its body does. -/
lemma answers_optional (hp : p.Answers definitions cs (.taken as bs)) :
    (optional p).Answers definitions cs (.taken as bs) :=
  answers_of_plan hp.splits fun input hi => by
    obtain ⟨taken, rest, yields, _⟩ := hp.matched hi
    refine ⟨_, yields, ?_⟩
    exact yields.unique (hp.yields input hi)

/-- And nothing, where its body is refused. -/
lemma answers_optional_of_refused (hp : p.Answers definitions cs (.refused e)) :
    (optional p).Answers definitions cs (.taken [] cs) :=
  answers_of_plan rfl fun input hi => by
    refine ⟨_, hp.rejected hi, ?_⟩
    rw [Verdict.outcome_self_taken, Outcome.split, byteLength_nil, Slice.splitAt?_zero]
    rfl

/-- Behind a condition that is accepted the consequence decides. -/
lemma answers_implies (hp : p.Answers definitions cs (.taken as bs))
    (hq : q.Answers definitions bs v) : (implies p q).Answers definitions cs (v.behind as) := by
  have splits : cs = as ++ bs := hp.splits
  subst splits
  refine answers_of_plan (hq.splits.behind as) fun input hi => ?_
  obtain ⟨taken, rest, yields, tail, progress, _, hr, _⟩ := hp.matched hi
  refine ⟨_, yields, ?_⟩
  rw [Verdict.outcome_behind (.refl input) tail progress]
  cases v with
  | refused e => exact ⟨_, hq.rejected hr, rfl⟩
  | taken xs ys =>
    obtain ⟨taken', rest', yields', tail', progress', _⟩ := hq.matched hr
    refine ⟨_, yields', ?_⟩
    show Outcome.fromRemainder input rest' = _
    rw [(tail.trans tail').fromRemainder_eq, tail.progress_trans tail', progress', Verdict.outcome]

/-- A condition that is refused asks for nothing. -/
lemma answers_implies_of_refused (hp : p.Answers definitions cs (.refused e)) (q : Pattern ρ) :
    (implies p q).Answers definitions cs (.taken [] cs) :=
  answers_of_plan rfl fun input hi => by
    refine ⟨_, hp.rejected hi, ?_⟩
    rw [Verdict.outcome_self_taken, Outcome.split, byteLength_nil, Slice.splitAt?_zero]
    rfl

/-- A pattern that only changes what another says about rejections answers so. -/
lemma Answers.mapRejection {f : Rejection → Rejection} {p' : Pattern ρ}
    (hp : p.Answers definitions cs v)
    (h : ∀ input, p'.plan input = .await (.apply p input) fun o => .done (o.mapRejection f)) :
    p'.Answers definitions cs (v.mapRejection f) := by
  refine answers_of_plan ?_ fun input hi => ?_
  · cases v with
    | taken as bs => exact hp.splits
    | refused e => trivial
  · rw [h]
    cases v with
    | taken as bs =>
      obtain ⟨taken, rest, yields, _⟩ := hp.matched hi
      refine ⟨_, yields, ?_⟩
      exact yields.unique (hp.yields input hi)
    | refused e =>
      refine ⟨_, hp.rejected hi, ?_⟩
      exact (Verdict.outcome_self_refused input (f e)).symm

/-- A label words the refusals at the start. -/
lemma Answers.label (hp : p.Answers definitions cs v) (message : String) :
    (Pattern.label p message).Answers definitions cs (v.mapRejection (·.labelled message)) :=
  hp.mapRejection fun _ => rfl

/-- A context is added to refusals that have none. -/
lemma Answers.context (hp : p.Answers definitions cs v) (name : String) :
    (Pattern.context p name).Answers definitions cs (v.mapRejection (·.within name)) :=
  hp.mapRejection fun _ => rfl

/-- A reference answers what its definition does. -/
lemma Answers.refer {rule : ρ} (hr : definitions rule = .defined p)
    (hp : p.Answers definitions cs v) : (Pattern.refer rule).Answers definitions cs v := by
  refine answers_of_plan hp.splits fun input hi => ?_
  show (Goal.resolve rule input).Yields definitions _
  rw [Goal.yields_iff, Goal.plan, hr]
  exact hp.yields input hi

/-- A reference to a rule without a definition refuses everything. -/
lemma refuses_undefined {rule : ρ} {name : String} (hr : definitions rule = .undefined name)
    (cs : List Char) :
    (Pattern.refer rule).Answers definitions cs (.refused { cause := .undefinedRule name }) := by
  refine answers_of_plan trivial fun input _ => ?_
  rw [Verdict.outcome_self_refused]
  show (Goal.resolve rule input).Yields definitions _
  rw [Goal.yields_iff, Goal.plan, hr]
  rfl

/-- A rule that is gone is refused for that. -/
lemma refuses_dropped {rule : ρ} (hr : definitions rule = .dropped) (cs : List Char) :
    (Pattern.refer rule).Answers definitions cs (.refused { cause := .grammarDropped }) := by
  refine answers_of_plan trivial fun input _ => ?_
  rw [Verdict.outcome_self_refused]
  show (Goal.resolve rule input).Yields definitions _
  rw [Goal.yields_iff, Goal.plan, hr]
  rfl

end Pattern

end Recognizer
