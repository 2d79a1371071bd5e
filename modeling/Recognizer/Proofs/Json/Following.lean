import Mathlib.Data.List.Induction
import Recognizer.Proofs.Json.Reading
import Recognizer.Proofs.Pattern.Loops

/-!
# Patterns that follow positions

A pattern follows the positions from `q` if what it takes is what leads from `q` to some other
position, and if what it refuses can be read from `q` up to the place of the rejection and no
further. There is one rule for each way in which sequences, choices and loops go on.
-/

namespace Recognizer

open Text

namespace Json

/-- What a text must do to be taken: the part that is taken, the position behind it, and what is
left. -/
abbrev Aim : Type :=
  List Char → Position → List Char → Prop

/-- The aim of what comes behind `as`. -/
def Aim.behind (as : List Char) (post : Aim) : Aim :=
  fun as' => post (as ++ as')

namespace Position

/-- Reading `cs` from `q` stops at `q'`. The place is `n` bytes from the start, not counting the
part of a literal. -/
def Stops (o : Options) (padded : Bool) (q : Position) (cs : List Char) (q' : Position) (n : Nat) :
    Prop :=
  ∃ as bs, cs = as ++ bs ∧ q.Halts o padded as bs q' ∧ byteLength as = n + byteLength q'.backlog

variable {o : Options} {padded : Bool} {q q₁ q' : Position} {as bs cs : List Char} {n : Nat}

/-- Where no character can be read, reading stops at once. -/
lemma Waits.stops (hq : q.Waits) (h : ∀ c ∈ cs.head?, step o padded q c = none) :
    Stops o padded q cs q 0 :=
  ⟨[], cs, rfl, ⟨rfl, h⟩, by rw [hq.backlog]; rfl⟩

/-- Reading stops behind what has been read before. -/
lemma Stops.behind (hr : read o padded q as = some q₁) (h : Stops o padded q₁ bs q' n) :
    Stops o padded q (as ++ bs) q' (n + byteLength as) := by
  obtain ⟨as', bs', rfl, ⟨hr', hb⟩, hn⟩ := h
  refine ⟨as ++ as', bs', by rw [List.append_assoc], ⟨?_, hb⟩, ?_⟩
  · rw [read_append_of_read hr, hr']
  · rw [byteLength_append, hn, Nat.add_right_comm, Nat.add_comm]

/-- A literal that is being read has been started at the place of a value. -/
lemma exists_start_of_literal {seen rest : List Char} {next : Char} {σ : List Bracket}
    (hq : ∀ seen next rest σ, q ≠ .literal seen next rest σ)
    (h : read o padded q cs = some (.literal seen next rest σ)) :
    ∃ before fresh, cs = before ++ seen ∧ read o padded q before = some (.value fresh σ) ∧
      o.literals = true ∧ seen ≠ [] ∧ seen ++ next :: rest ∈ literalWords := by
  induction cs using List.reverseRecOn generalizing seen next rest with
  | nil => exact absurd (Option.some.inj h) (hq _ _ _ _)
  | append_singleton cs c ih =>
    obtain ⟨q₁, hr, hc⟩ := exists_read_of_append h
    have step : step o padded q₁ c = some (.literal seen next rest σ) := by
      rwa [read_singleton] at hc
    -- The last character starts the literal, or goes on with one that has been started before.
    obtain ⟨fresh, rfl, rfl, enabled, word⟩ | ⟨seen', rfl, rfl⟩ := step_literal step
    · exact ⟨cs, fresh, rfl, hr, enabled, List.cons_ne_nil c [], word⟩
    · obtain ⟨before, fresh, rfl, hv, enabled, _, word⟩ := ih hr
      refine ⟨before, fresh, List.append_assoc before seen' [c], hv, enabled, by simp, ?_⟩
      rwa [List.append_assoc, List.singleton_append]

/-- Only literals have a part that may turn out wrong. -/
lemma backlog_eq_nil (hq : ∀ seen next rest σ, q ≠ .literal seen next rest σ) :
    q.backlog = [] := by
  cases q with
  | literal seen next rest σ => exact absurd rfl (hq seen next rest σ)
  | _ => rfl

/-- A character adds itself to the part of a literal, or ends it. -/
lemma backlog_of_step (h : step o padded q c = some q') :
    q'.backlog = [] ∨ q'.backlog = q.backlog ++ [c] := by
  cases q' with
  | literal seen next rest σ =>
    rcases step_literal h with ⟨fresh, rfl, rfl, _⟩ | ⟨seen', rfl, rfl⟩
    · exact .inr rfl
    · exact .inr rfl
  | _ => exact .inl rfl

/-- The part of a literal grows by no more than is read. -/
lemma backlog_le_of_read (h : read o padded q cs = some q') :
    byteLength q'.backlog ≤ byteLength q.backlog + byteLength cs := by
  induction cs generalizing q with
  | nil =>
    cases h
    exact Nat.le_refl _
  | cons c cs ih =>
    obtain ⟨q₁, step, h⟩ := Option.bind_eq_some_iff.1 h
    have le := ih h
    rw [byteLength_cons]
    rcases backlog_of_step step with e | e
    · rw [e, byteLength_nil] at le
      omega
    · rw [e, byteLength_append, byteLength_cons, byteLength_nil] at le
      omega

/-- Characters that change nothing are read before the text stops. -/
lemma Stops.le {w : List Char} (hw : ∀ c ∈ w, step o padded q c = some q)
    (hq : ∀ seen next rest σ, q ≠ .literal seen next rest σ)
    (h : Stops o padded q (w ++ cs) q' n) : byteLength w ≤ n := by
  obtain ⟨as, bs, split, ⟨hr, hb⟩, hn⟩ := h
  obtain ⟨mid, rfl, _⟩ | ⟨mid, rfl, rfl⟩ := List.append_eq_append_iff.1 split
  · -- All of `w` has been read, and a literal can have started only behind it.
    rw [read_append_of_read (read_of_forall_step hw)] at hr
    have le := backlog_le_of_read hr
    rw [backlog_eq_nil hq, byteLength_nil, Nat.zero_add] at le
    rw [byteLength_append] at hn
    omega
  · have stay := read_of_forall_step fun c hc => hw c (List.mem_append_left mid hc)
    cases hr.symm.trans stay
    cases mid with
    | nil =>
      rw [List.append_nil, hn, backlog_eq_nil hq]
      exact Nat.le_refl n
    | cons c mid =>
      have step : step o padded q c = some q := hw c (by simp)
      cases step.symm.trans (hb c rfl)

/-- A first character that starts no literal is read for good. -/
lemma Stops.pos {c : Char} (hs : step o padded q c = some q₁) (start : q₁.backlog = [])
    (h : Stops o padded q (c :: cs) q' n) : 0 < n := by
  obtain ⟨as, bs, split, ⟨hr, hb⟩, hn⟩ := h
  cases as with
  | nil =>
    cases split
    cases hr
    cases hs.symm.trans (hb c rfl)
  | cons d as =>
    cases split
    rw [read_cons hs] at hr
    have le := backlog_le_of_read hr
    have size := c.utf8Size_pos
    rw [start, byteLength_nil, Nat.zero_add] at le
    rw [byteLength_cons] at hn
    omega

end Position

/-- The verdict on `cs` is right: what is taken leads from `q` to where `post` says, and what is
refused has no more that can be read, at a place where the text cannot end. -/
inductive Tracks (o : Options) (padded : Bool) (q : Position) (post : Aim) :
    List Char → Verdict → Prop where
  | taken {as bs : List Char} {q' : Position} : Position.read o padded q as = some q' →
    post as q' bs → Tracks o padded q post (as ++ bs) (.taken as bs)
  | refused {cs : List Char} {e : Rejection} {q' : Position} : q.Stops o padded cs q' e.offset →
    ¬ q'.Ends [] → Tracks o padded q post cs (.refused e)

/-- Some right verdict is given. -/
def Follows (o : Options) (padded : Bool) (q : Position) (answers : Verdict → Prop)
    (cs : List Char) (post : Aim) : Prop :=
  ∃ v, answers v ∧ Tracks o padded q post cs v

variable {o : Options} {padded : Bool} {q q' : Position} {post post' : Aim} {as bs cs : List Char}
  {v : Verdict} {answers answers' : Verdict → Prop}

/-- So a verdict commits if the first character starts no literal. -/
lemma Tracks.commits {c : Char} (hs : q.step o padded c = some q') (start : q'.backlog = [])
    (hc : c ∈ cs.head?) (h : Tracks o padded q post cs v) : v.Commits := by
  cases h with
  | taken hr hp => trivial
  | refused stops ends =>
    obtain ⟨cs, rfl⟩ := List.head?_eq_some_iff.1 hc
    exact stops.pos hs start

/-- What is right behind `as` is right with `as` before it. -/
lemma Tracks.behind (hr : Position.read o padded q as = some q')
    (h : Tracks o padded q' (post.behind as) bs v) :
    Tracks o padded q post (as ++ bs) (v.behind as) := by
  cases h with
  | taken hr' hp =>
    rw [← List.append_assoc]
    exact .taken ((Position.read_append_of_read hr _).trans hr') hp
  | refused hs he => exact .refused (hs.behind hr) he

namespace Follows

/-- What leads to the aim is taken. -/
lemma taken (h : answers (.taken as bs)) (hr : Position.read o padded q as = some q')
    (hp : post as q' bs) : Follows o padded q answers (as ++ bs) post :=
  ⟨_, h, .taken hr hp⟩

/-- Nothing is taken where the aim is reached already. -/
lemma taken_nil (h : answers (.taken [] cs)) (hp : post [] q cs) :
    Follows o padded q answers cs post :=
  taken h rfl hp

/-- What cannot be read is refused at once. -/
lemma refused {e : Rejection} (h : answers (.refused e)) (he : e.offset = 0) (hq : q.Waits)
    (hc : ∀ c ∈ cs.head?, q.step o padded c = none) : Follows o padded q answers cs post := by
  refine ⟨_, h, .refused ?_ hq.not_ends⟩
  rw [he]
  exact hq.stops hc

/-- Other answers with the same offsets follow too. -/
lemma map (h : Follows o padded q answers cs post)
    (ht : ∀ {as bs}, answers (.taken as bs) → answers' (.taken as bs))
    (hr : ∀ {e}, answers (.refused e) → ∃ e', answers' (.refused e') ∧ e'.offset = e.offset) :
    Follows o padded q answers' cs post := by
  obtain ⟨v, ha, h⟩ := h
  cases h with
  | taken hr' hp => exact taken (ht ha) hr' hp
  | refused hs he =>
    obtain ⟨e', ha', same⟩ := hr ha
    exact ⟨_, ha', .refused (same ▸ hs) he⟩

/-- The aim may be widened to what it entails. -/
lemma aim (h : Follows o padded q answers cs post)
    (hp : ∀ as bs q', cs = as ++ bs → Position.read o padded q as = some q' → post as q' bs →
      post' as q' bs) : Follows o padded q answers cs post' := by
  obtain ⟨v, ha, h⟩ := h
  refine ⟨v, ha, ?_⟩
  cases h with
  | taken hr' hp' => exact .taken hr' (hp _ _ _ rfl hr' hp')
  | refused hs he => exact .refused hs he

/-- What comes behind `as` goes on where `as` leads. -/
lemma behind (hr : Position.read o padded q as = some q')
    (h : Follows o padded q' answers bs (post.behind as))
    (ha : ∀ {v}, answers v → answers' (v.behind as)) :
    Follows o padded q answers' (as ++ bs) post := by
  obtain ⟨v, hv, h⟩ := h
  exact ⟨_, ha hv, h.behind hr⟩

/-- What follows the positions in two parts follows them in one. -/
lemma bind (h : Follows o padded q answers cs post')
    (ht : ∀ as bs q', cs = as ++ bs → answers (.taken as bs) → post' as q' bs →
      Position.read o padded q as = some q' → Follows o padded q answers' cs post)
    (hr : ∀ {e}, answers (.refused e) → ∃ e', answers' (.refused e') ∧ e'.offset = e.offset) :
    Follows o padded q answers' cs post := by
  obtain ⟨v, ha, h⟩ := h
  cases h with
  | taken hr' hp => exact ht _ _ _ rfl ha hp hr'
  | refused hs he =>
    obtain ⟨e', ha', same⟩ := hr ha
    exact ⟨_, ha', .refused (same ▸ hs) he⟩

end Follows

variable {ρ : Type} {definitions : ρ → Resolution ρ} {p p' : Pattern ρ} {ps qs : List (Pattern ρ)}

/-- A text starts as asked for, or not. -/
lemma head_cases (holds : Char → Prop) (cs : List Char) :
    (∃ c bs, cs = c :: bs ∧ holds c) ∨ ∀ c ∈ cs.head?, ¬ holds c := by
  cases cs with
  | nil => exact .inr nofun
  | cons c bs =>
    by_cases h : holds c
    · exact .inl ⟨c, bs, rfl, h⟩
    · refine .inr ?_
      rintro _ ⟨⟩
      exact h

/-- It starts with an accepted character, or not. -/
lemma accepts_cases (accepts : Char → Bool) (cs : List Char) :
    (∃ c bs, cs = c :: bs ∧ accepts c = true) ∨ ∀ c ∈ cs.head?, accepts c = false := by
  have cases := head_cases (fun c => accepts c = true) cs
  simp only [Bool.not_eq_true] at cases
  exact cases

/-- A character test follows positions if it agrees with the next step. -/
lemma follows_satisfy {accepts : Char → Bool}
    (ht : ∀ c bs, cs = c :: bs → accepts c = true →
      ∃ q', q.step o padded c = some q' ∧ post [c] q' bs)
    (hr : ∀ c ∈ cs.head?, accepts c = false → q.step o padded c = none) (hq : q.Waits) :
    Follows o padded q ((Pattern.satisfy accepts : Pattern ρ).Answers definitions cs) cs post := by
  rcases accepts_cases accepts cs with ⟨c, bs, rfl, accepted⟩ | rejected
  · obtain ⟨q', step, hp⟩ := ht c bs rfl accepted
    exact .taken (Pattern.answers_satisfy accepted bs) (Position.read_cons step []) hp
  · obtain ⟨cause, ha⟩ := Pattern.refuses_satisfy definitions rejected
    exact .refused ha rfl hq fun c h => hr c h (rejected c h)

/-- A character follows positions if it is the only one to be read. -/
lemma follows_char {d : Char} (hd : q.step o padded d = some q')
    (hr : ∀ c ∈ cs.head?, c ≠ d → q.step o padded c = none) (hq : q.Waits) :
    Follows o padded q ((Pattern.char d : Pattern ρ).Answers definitions cs) cs
      fun as q'' _ => as = [d] ∧ q'' = q' := by
  refine follows_satisfy (fun c bs _ hc => ?_) (fun c hc h => ?_) hq
  · obtain rfl : c = d := beq_iff_eq.1 hc
    exact ⟨q', hd, rfl, rfl⟩
  · exact hr c hc (beq_eq_false_iff_ne.1 h)

/-- No parts stay where they are. -/
lemma follows_parts_nil (hp : post [] q cs) :
    Follows o padded q ((Course.parts [] : Course ρ).Answers definitions cs) cs post :=
  .taken_nil (Course.answers_parts_nil cs) hp

/-- A part that takes a known text leads on behind it. -/
lemma follows_parts_taken (h : p.Answers definitions (as ++ bs) (.taken as bs))
    (hr : Position.read o padded q as = some q')
    (hps : Follows o padded q' ((Course.parts ps).Answers definitions bs) bs (post.behind as)) :
    Follows o padded q ((Course.parts (p :: ps)).Answers definitions (as ++ bs)) (as ++ bs) post :=
  hps.behind hr (Course.answers_parts_cons h)

/-- Parts follow positions one behind the other. -/
lemma follows_parts_cons (h : Follows o padded q (p.Answers definitions cs) cs post')
    (hps : ∀ as bs q', cs = as ++ bs → Position.read o padded q as = some q' → post' as q' bs →
      Follows o padded q' ((Course.parts ps).Answers definitions bs) bs (post.behind as)) :
    Follows o padded q ((Course.parts (p :: ps)).Answers definitions cs) cs post := by
  refine h.bind ?_ fun ha => ⟨_, Course.refuses_parts_cons ha ps, rfl⟩
  rintro as bs q' rfl ha hp hr
  exact follows_parts_taken ha hr (hps as bs q' rfl hr hp)

/-- A character leads on to the parts behind it. -/
lemma follows_parts_char {d : Char} (hd : q.step o padded d = some q')
    (hr : ∀ c ∈ cs.head?, c ≠ d → q.step o padded c = none) (hq : q.Waits)
    (hps : ∀ bs, cs = d :: bs →
      Follows o padded q' ((Course.parts ps).Answers definitions bs) bs (post.behind [d])) :
    Follows o padded q ((Course.parts (.char d :: ps)).Answers definitions cs) cs post := by
  refine follows_parts_cons (follows_char hd hr hq) ?_
  rintro _ bs _ hcs - ⟨rfl, rfl⟩
  exact hps bs hcs

/-- A sequence follows positions as its parts do. -/
lemma Follows.concat (h : Follows o padded q ((Course.parts ps).Answers definitions cs) cs post) :
    Follows o padded q ((Pattern.concat ps).Answers definitions cs) cs post :=
  h.map (fun ha => ha.concat) fun ha => ⟨_, ha.concat, rfl⟩

/-- A context takes and refuses the same. -/
lemma Follows.context (name : String) (h : Follows o padded q (p.Answers definitions cs) cs post) :
    Follows o padded q ((Pattern.context p name).Answers definitions cs) cs post :=
  h.map (fun ha => ha.context name) fun ha => ⟨_, ha.context name, rfl⟩

/-- So does a label. -/
lemma Follows.label (message : String)
    (h : Follows o padded q (p.Answers definitions cs) cs post) :
    Follows o padded q ((Pattern.label p message).Answers definitions cs) cs post := by
  refine h.map (fun ha => ha.label message) fun {e} ha => ⟨_, ha.label message, ?_⟩
  show (e.labelled message).offset = e.offset
  rw [Rejection.labelled]
  split <;> rfl

/-- And a rule, as its definition. -/
lemma Follows.refer {rule : ρ} (hr : definitions rule = .defined p)
    (h : Follows o padded q (p.Answers definitions cs) cs post) :
    Follows o padded q ((Pattern.refer rule).Answers definitions cs) cs post :=
  h.map (fun ha => ha.refer hr) fun ha => ⟨_, ha.refer hr, rfl⟩

/-- If all but one decline, the choice follows what that one follows. -/
lemma follows_firstOf (hps : ∀ p ∈ ps, p.Declines definitions cs)
    (h : Follows o padded q (p.Answers definitions cs) cs post)
    (hqs : ∀ p ∈ qs, p.Declines definitions cs) :
    Follows o padded q ((Pattern.firstOf (ps ++ p :: qs)).Answers definitions cs) cs post := by
  refine h.map (Pattern.answers_firstOf hps) fun {e} ha => ?_
  by_cases pos : 0 < e.offset
  · exact ⟨e, Pattern.refuses_firstOf hps ha pos hqs, rfl⟩
  -- A pattern that is refused at the start declines like the others.
  · have zero : e.offset = 0 := Nat.eq_zero_of_not_pos pos
    refine ⟨_, Pattern.declines_firstOf (List.forall_mem_append.2 ⟨hps, ?_⟩), zero.symm⟩
    exact List.forall_mem_cons.2 ⟨⟨e, zero, ha⟩, hqs⟩

/-- A first pattern that is refused where reading stops or before leaves it to the second one. -/
lemma follows_firstOf_pair {e : Rejection} (hp : p.Answers definitions cs (.refused e))
    (le : ∀ q' n, q.Stops o padded cs q' n → e.offset ≤ n)
    (h : Follows o padded q (p'.Answers definitions cs) cs post) :
    Follows o padded q ((Pattern.firstOf [p, p']).Answers definitions cs) cs post := by
  obtain ⟨v, ha, h⟩ := h
  cases h with
  | taken hr hp' => exact .taken (Pattern.answers_firstOf_pair hp ha) hr hp'
  | refused hs he =>
    obtain ⟨e', ha', same⟩ := Pattern.refuses_firstOf_pair hp ha (le _ _ hs)
    exact ⟨_, ha', .refused (same ▸ hs) he⟩

/-- A choice refuses at once where no alternative starts. -/
lemma follows_firstOf_of_declines (hps : ∀ p ∈ ps, p.Declines definitions cs) (hq : q.Waits)
    (hc : ∀ c ∈ cs.head?, q.step o padded c = none) :
    Follows o padded q ((Pattern.firstOf ps).Answers definitions cs) cs post :=
  .refused (Pattern.declines_firstOf hps) rfl hq hc

end Json

end Recognizer
