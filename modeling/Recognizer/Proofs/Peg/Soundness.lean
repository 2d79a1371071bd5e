import Recognizer.Proofs.Pattern.Loops
import Recognizer.Proofs.Peg.Translation

/-!
# Answers have derivations

Whatever a pattern answers to a text, its parsing expression derives it (`Goal.accounted_of_run`).
The induction is on the run. A loop under way stands at a tail of its input, and its answer is
accounted for by what is left of its expression.
-/

namespace Recognizer

open Text Peg

/-- The verdict without the reasons. -/
def Verdict.result : Verdict → Result
  | taken as bs => .taken as bs
  | refused _ => .failed

/-- What comes before a verdict comes before its result. -/
lemma Verdict.result_behind (as : List Char) (v : Verdict) :
    (v.behind as).result = v.result.behind as := by
  cases v <;> rfl

namespace Peg

variable {ρ : Type} {g : ρ → Expr ρ} {depth : Nat} {e e' : Expr ρ} {input rest rest' : Slice}
  {taken : Slice} {cs as bs : List Char} {o : Outcome}

/-- The outcome at the tail `rest` of an input is what `e` derives on the characters `cs`. -/
def Accounts (g : ρ → Expr ρ) (depth : Nat) (e : Expr ρ) (input rest : Slice) (cs : List Char)
    (o : Outcome) : Prop :=
  ∃ v : Verdict, v.Splits cs ∧ o = v.outcome input rest ∧ DerivesWithin g depth e cs v.result

/-- A match is a cut behind what is consumed. -/
lemma Accounts.cut (h : Accounts g depth e rest rest cs (.matched taken rest'))
    (hs : rest.Spells cs) : ∃ as bs, cs = as ++ bs ∧ DerivesWithin g depth e cs (.taken as bs) ∧
      rest.splitAt? (byteLength as) = some (taken, rest') ∧ taken.Spells as ∧ rest'.Spells bs := by
  obtain ⟨v, hv, ho, hd⟩ := h
  cases v with
  | refused _ =>
    rw [Verdict.outcome_self_refused] at ho
    cases ho
  | taken as bs =>
    cases hv
    obtain ⟨taken', rest'', cut, ha, hb⟩ := hs.splitAt?_eq
    rw [Verdict.outcome_self_taken, Outcome.split, cut] at ho
    cases ho
    exact ⟨as, bs, rfl, hd, cut, ha, hb⟩

/-- A match is derived as a success, and is about the characters that it takes. -/
lemma Accounts.matched (h : Accounts g depth e rest rest cs (.matched taken rest'))
    (hs : rest.Spells cs) : ∃ as bs, cs = as ++ bs ∧ DerivesWithin g depth e cs (.taken as bs) ∧
      rest.HasTail rest' ∧ rest.progress rest' = byteLength as ∧ rest'.Spells bs ∧
      taken.size = byteLength as := by
  obtain ⟨as, bs, split, hd, cut, ⟨_, _, size⟩, hb⟩ := h.cut hs
  exact ⟨as, bs, split, hd, ⟨_, _, cut⟩, Slice.progress_of_splitAt? cut, hb, size.symm⟩

/-- A rejection is derived as a failure. -/
lemma Accounts.rejected {reason : Rejection}
    (h : Accounts g depth e rest rest cs (.rejected reason)) (hs : rest.Spells cs) :
    DerivesWithin g depth e cs .failed := by
  obtain ⟨v, hv, ho, hd⟩ := h
  cases v with
  | refused _ => exact hd
  | taken as bs =>
    cases hv
    obtain ⟨_, _, _, _, _, _, split, _⟩ := hs.split_eq
    rw [Verdict.outcome_self_taken, split] at ho
    cases ho

/-- What is derived by one expression is derived by another. -/
lemma Accounts.derives {depth' : Nat} (h : Accounts g depth e input rest cs o)
    (derive : ∀ r, DerivesWithin g depth e cs r → DerivesWithin g depth' e' cs r) :
    Accounts g depth' e' input rest cs o := by
  obtain ⟨v, hv, ho, hd⟩ := h
  exact ⟨v, hv, ho, derive _ hd⟩

/-- An expression with the same successes accounts for a match. -/
lemma Accounts.of_matched (h : Accounts g depth e rest rest cs (.matched taken rest'))
    (derive : ∀ as bs, DerivesWithin g depth e cs (.taken as bs) →
      DerivesWithin g depth e' cs (.taken as bs)) :
    Accounts g depth e' rest rest cs (.matched taken rest') := by
  obtain ⟨v, hv, ho, hd⟩ := h
  cases v with
  | taken as bs => exact ⟨_, hv, ho, derive as bs hd⟩
  | refused reason =>
    rw [Verdict.outcome_self_refused] at ho
    cases ho

/-- How a rejection is worded does not matter. -/
lemma Accounts.mapRejection (h : Accounts g depth e rest rest cs o) (hs : rest.Spells cs)
    (f : Rejection → Rejection) : Accounts g depth e rest rest cs (o.mapRejection f) := by
  cases o with
  | matched taken rest' => exact h
  | rejected reason =>
    refine ⟨.refused (f reason), trivial, ?_, h.rejected hs⟩
    rw [Verdict.outcome_self_refused]
    rfl

/-- An answer behind `as` is counted from the start of the input. -/
lemma Accounts.behind (h : Accounts g depth e' input rest' bs o) (hr : input.HasTail rest)
    (tail : rest.HasTail rest') (progress : rest.progress rest' = byteLength as)
    (derive : ∀ r, DerivesWithin g depth e' bs r →
      DerivesWithin g depth e (as ++ bs) (r.behind as)) :
    Accounts g depth e input rest (as ++ bs) o := by
  obtain ⟨v, hv, rfl, hd⟩ := h
  refine ⟨v.behind as, hv.behind as, (Verdict.outcome_behind hr tail progress v).symm, ?_⟩
  rw [Verdict.result_behind]
  exact derive _ hd

/-- A failure accounts for every rejection from the place on. -/
lemma accounts_rejected (hd : DerivesWithin g depth e cs .failed) (input rest : Slice)
    (reason : Rejection) :
    Accounts g depth e input rest cs (.rejected (reason.shifted (input.progress rest))) :=
  ⟨.refused reason, trivial, rfl, hd⟩

/-- The rejection may come from a place further behind. -/
lemma accounts_rejected_behind (hd : DerivesWithin g depth e cs .failed) (hr : input.HasTail rest)
    (tail : rest.HasTail rest') (reason : Rejection) :
    Accounts g depth e input rest cs (.rejected (reason.shifted (input.progress rest'))) := by
  refine ⟨.refused (reason.shifted (rest.progress rest')), trivial, ?_, hd⟩
  rw [hr.progress_trans tail, Nat.add_comm, Verdict.outcome]
  simp only [Rejection.shifted, Nat.add_assoc]

/-- At the start of the input no bytes are added. -/
lemma accounts_refused (hd : DerivesWithin g depth e cs .failed) (input : Slice)
    (reason : Rejection) : Accounts g depth e input input cs (.rejected reason) :=
  ⟨.refused reason, trivial, (Verdict.outcome_self_refused input reason).symm, hd⟩

/-- The same for a rejection that is made at the place. -/
lemma accounts_refusedAt (hd : DerivesWithin g depth e cs .failed) (input rest : Slice)
    (cause : Cause) :
    Accounts g depth e input rest cs (.refuseAt cause (input.progress rest)) := by
  have accounts := accounts_rejected hd input rest { cause }
  simp only [Rejection.shifted, Nat.zero_add] at accounts
  exact accounts

/-- A success accounts for a match up to the tail that it leaves. -/
lemma accounts_remainder (hd : DerivesWithin g depth e (as ++ bs) (.taken as bs))
    (hr : input.HasTail rest) (tail : rest.HasTail rest')
    (progress : rest.progress rest' = byteLength as) :
    Accounts g depth e input rest (as ++ bs) (.fromRemainder input rest') := by
  refine ⟨.taken as bs, rfl, ?_, hd⟩
  rw [(hr.trans tail).fromRemainder_eq, hr.progress_trans tail, progress, Verdict.outcome]

/-- A success without characters accounts for a match up to the place. -/
lemma accounts_nothing (hd : DerivesWithin g depth e cs (.taken [] cs))
    (hr : input.HasTail rest) : Accounts g depth e input rest cs (.fromRemainder input rest) := by
  rw [← List.nil_append cs] at hd ⊢
  exact accounts_remainder hd hr (.refl rest) (Slice.progress_self rest)

/-- At the start of the input that is the empty match. -/
lemma accounts_empty (hd : DerivesWithin g depth e cs (.taken [] cs)) (input : Slice) :
    Accounts g depth e input input cs (.empty input) := by
  refine ⟨.taken [] cs, rfl, ?_, hd⟩
  rw [Verdict.outcome_self_taken, Outcome.split, byteLength_nil, Slice.splitAt?_zero]
  rfl

end Peg

variable {ρ : Type} {definitions : ρ → Resolution ρ} {good : ρ → Prop} {depth : Nat}

/-- The answer of a goal is accounted for. For loops that is what is left of their expression. -/
def Goal.Accounted (definitions : ρ → Resolution ρ) (good : ρ → Prop) (depth : Nat) :
    Goal ρ → Outcome → Prop
  | .apply p input, o => p.PegOver good → ∀ cs, input.Spells cs →
    Accounts (grammar definitions) depth p.expr input input cs o
  | .resolve rule input, o => good rule → ∀ cs, input.Spells cs →
    Accounts (grammar definitions) depth (.rule rule) input input cs o
  | .repeating body min max input rest count, o => body.PegOver good → input.HasTail rest →
    ∀ cs, rest.Spells cs → Accounts (grammar definitions) depth
      (body.expr.between (min - count) (max.map (· - count))) input rest cs o
  | .scanning stop body input rest, o => stop.PegOver good → body.PegOver good →
    input.HasTail rest → ∀ cs, rest.Spells cs →
    Accounts (grammar definitions) depth (.upTo stop.expr body.expr) input rest cs o
  | .listing element separator config input rest count, o => element.PegOver good →
    separator.PegOver good → config.min = 1 → config.max = none → 1 ≤ count →
    input.HasTail rest → ∀ cs, rest.Spells cs → Accounts (grammar definitions) depth
      (.further element.expr separator.expr config.trailing) input rest cs o

namespace Peg

variable {input rest : Slice} {cs : List Char} {o : Outcome} {p q : Pattern ρ}
  {ps : List (Pattern ρ)}

section Primitives

variable {g : ρ → Expr ρ} {e : Expr ρ} {v : Verdict}

/-- The only outcome of a pattern that needs no others is the one that its verdict says. -/
lemma accounts_of_answers (h : p.Answers definitions cs v) (hs : input.Spells cs)
    (done : p.plan input = .done o) (hd : DerivesWithin g depth e cs v.result) :
    Accounts g depth e input input cs o := by
  refine ⟨v, h.splits, ?_, hd⟩
  have yields : (Goal.apply p input).Yields definitions o := by
    rw [Goal.yields_iff, Goal.plan, done]
    rfl
  exact yields.unique (h.yields input hs)

/-- What a character test answers is derived. -/
lemma accounts_ofChar (definitions : ρ → Resolution ρ) (accepts : Char → Bool)
    (hs : input.Spells cs) :
    Accounts g depth (.char accepts) input input cs (.ofChar accepts input) := by
  by_cases h : ∀ c ∈ cs.head?, accepts c = false
  · obtain ⟨cause, ha⟩ := Pattern.refuses_satisfy definitions h
    exact accounts_of_answers ha hs rfl (.char_failed h)
  · cases cs with
    | nil => exact absurd (fun _ hc => nomatch hc) h
    | cons c cs =>
      have hc : accepts c = true := by simpa using h
      have ha : (Pattern.satisfy accepts).Answers definitions (c :: cs) (.taken [c] cs) :=
        Pattern.answers_satisfy hc cs
      exact accounts_of_answers ha hs rfl (.char hc)

/-- What a literal answers is derived. -/
lemma accounts_ofText (definitions : ρ → Resolution ρ) (text : String) (hs : input.Spells cs) :
    Accounts g depth (.literal text.toList) input input cs (.ofText text input) := by
  by_cases h : text.toList <+: cs
  · obtain ⟨bs, rfl⟩ := h
    have ha : (Pattern.literal text).Answers definitions _ (.taken text.toList bs) :=
      Pattern.answers_literal text bs
    exact accounts_of_answers ha hs rfl (.literal rfl)
  · obtain ⟨cause, ha⟩ := Pattern.refuses_literal definitions h
    exact accounts_of_answers ha hs rfl (.literal_failed h)

/-- What the end of the input answers is derived. -/
lemma accounts_ofEnd (definitions : ρ → Resolution ρ) (hs : input.Spells cs) :
    Accounts g depth .endOfInput input input cs (.ofEnd input) := by
  by_cases h : cs = []
  · subst h
    have ha : Pattern.endOfInput.Answers definitions [] (.taken [] []) := Pattern.answers_endOfInput
    exact accounts_of_answers ha hs rfl .endOfInput
  · have ha : Pattern.endOfInput.Answers definitions cs (.refused { cause := .trailingInput }) :=
      Pattern.refuses_endOfInput h
    exact accounts_of_answers ha hs rfl (.endOfInput_failed h)

end Primitives

variable {min count : Nat} {max : Option Nat}

/-- The end of a repetition. -/
lemma accounts_ofRepeated {g : ρ → Expr ρ} {a : Expr ρ} {stoppedBy : Option Rejection}
    (hr : input.HasTail rest)
    (stop : max.map (· - count) = some 0 ∨ DerivesWithin g depth (.filled a) cs .failed) :
    Accounts g depth (a.between (min - count) (max.map (· - count))) input rest cs
      (.ofRepeated min input rest count stoppedBy) := by
  rw [Outcome.ofRepeated.eq_def]
  split
  · next enough =>
    rw [Nat.sub_eq_zero_of_le enough]
    exact accounts_nothing (.between_stop stop) hr
  · next early =>
    obtain ⟨missing, hm⟩ : ∃ missing, min - count = missing + 1 :=
      ⟨min - count - 1, by omega⟩
    rw [hm]
    split
    · exact accounts_rejected (.between_failed stop) input rest _
    · exact accounts_refusedAt (.between_failed stop) input rest _

/-- What a sequence under way answers is derived for the parts that are left. -/
lemma accounts_ofParts (hp : ∀ p ∈ ps, p.PegOver good) (hr : input.HasTail rest)
    (hs : rest.Spells cs)
    (h : (Plan.ofParts input ps rest).Reaches (Goal.Accounted definitions good depth) o) :
    Accounts (grammar definitions) depth (Pattern.exprOfParts ps) input rest cs o := by
  induction ps generalizing rest cs with
  | nil =>
    cases h
    exact accounts_nothing .empty hr
  | cons p ps ih =>
    rw [List.forall_mem_cons] at hp
    obtain ⟨o', accounted, h⟩ := h
    have accounts := accounted hp.1 cs hs
    cases o' with
    | rejected e =>
      cases h
      exact accounts_rejected (.seq_failed (accounts.rejected hs)) input rest e
    | matched taken rest' =>
      obtain ⟨as, bs, rfl, hd, tail, progress, hs', _⟩ := accounts.matched hs
      exact (ih hp.2 (hr.trans tail) hs' h).behind hr tail progress fun r => .seq hd

/-- What a choice under way answers is derived for the choices that are left. -/
lemma accounts_ofChoices {best : Option Rejection} (hp : ∀ p ∈ ps, p.PegOver good)
    (hs : input.Spells cs)
    (h : (Plan.ofChoices input ps best).Reaches (Goal.Accounted definitions good depth) o) :
    Accounts (grammar definitions) depth (Pattern.exprOfChoices ps) input input cs o := by
  induction ps generalizing best with
  | nil =>
    obtain ⟨e, he, _⟩ := Outcome.exists_ofFurthest best
    cases h
    rw [he]
    exact accounts_refused .fail input e
  | cons p ps ih =>
    rw [List.forall_mem_cons] at hp
    obtain ⟨o', accounted, h⟩ := h
    have accounts := accounted hp.1 cs hs
    cases o' with
    | matched taken rest =>
      cases h
      exact accounts.of_matched fun _ _ => .choice
    | rejected e => exact (ih hp.2 h).derives fun _ => .choice_next (accounts.rejected hs)

/-- What a repetition under way answers is derived for the rounds that are left. -/
lemma accounts_ofRepeating (hp : p.PegOver good) (hr : input.HasTail rest) (hs : rest.Spells cs)
    (h : (Plan.ofRepeating p min max input rest count).Reaches
      (Goal.Accounted definitions good depth) o) :
    Accounts (grammar definitions) depth (p.expr.between (min - count) (max.map (· - count)))
      input rest cs o := by
  rw [Plan.ofRepeating] at h
  split at h
  · next room =>
    obtain ⟨o', accounted, h⟩ := h
    have accounts := accounted hp cs hs
    cases o' with
    | rejected e =>
      cases h
      exact accounts_ofRepeated hr (.inr (.filled_failed (accounts.rejected hs)))
    | matched taken rest' =>
      obtain ⟨as, bs, rfl, hd, tail, progress, hs', size⟩ := accounts.matched hs
      by_cases nil : as = []
      · subst nil
        simp only [if_pos (Course.isEmpty_eq_true size)] at h
        cases h
        exact accounts_ofRepeated hr (.inr (.filled_empty hd))
      · simp only [if_neg (Course.isEmpty_eq_false nil size)] at h
        refine (h hp (hr.trans tail) bs hs').behind hr tail progress fun r hd' => ?_
        refine .between_more (belowMax_iff.1 room) (.filled nil hd) ?_
        rw [Nat.sub_sub, Option.map_map]
        exact hd'
  · next full =>
    cases h
    exact accounts_ofRepeated hr (.inl (Decidable.not_not.1 (mt belowMax_iff.2 full)))

/-- What a scan under way answers is derived from its place on. -/
lemma accounts_ofScanning (hp : p.PegOver good) (hq : q.PegOver good) (hr : input.HasTail rest)
    (hs : rest.Spells cs)
    (h : (Plan.ofScanning p q input rest).Reaches (Goal.Accounted definitions good depth) o) :
    Accounts (grammar definitions) depth (.upTo p.expr q.expr) input rest cs o := by
  obtain ⟨o', accounted, h⟩ := h
  have accounts := accounted hp cs hs
  cases o' with
  | matched taken rest' =>
    cases h
    obtain ⟨as, bs, rfl, hd, tail, progress, _⟩ := accounts.matched hs
    exact accounts_remainder (.upTo_stop hd) hr tail progress
  | rejected e =>
    have stop := accounts.rejected hs
    by_cases ne : cs = []
    · subst ne
      simp only [if_pos (hs.isEmpty_iff.2 rfl)] at h
      cases h
      exact accounts_refusedAt (.upTo_failed_nil stop) input rest _
    · simp only [if_neg fun he => ne (hs.isEmpty_iff.1 he)] at h
      obtain ⟨o', accounted, h⟩ := h
      have accounts := accounted hq cs hs
      cases o' with
      | rejected e =>
        cases h
        have body := accounts.rejected hs
        exact accounts_rejected (.upTo_failed stop ne (.filled_failed body)) input rest e
      | matched taken rest' =>
        obtain ⟨as, bs, rfl, hd, tail, progress, hs', size⟩ := accounts.matched hs
        by_cases nil : as = []
        · subst nil
          simp only [if_pos (Course.isEmpty_eq_true size)] at h
          cases h
          exact accounts_refusedAt (.upTo_failed stop ne (.filled_empty hd)) input rest _
        · simp only [if_neg (Course.isEmpty_eq_false nil size)] at h
          refine (h hp hq (hr.trans tail) bs hs').behind hr tail progress fun r => ?_
          exact .upTo_more stop ne (.filled nil hd)

/-- What a series behind its first element answers is derived for further ones. -/
lemma accounts_ofListing {config : Series.Config} (hp : p.PegOver good) (hq : q.PegOver good)
    (hmin : config.min = 1) (hmax : config.max = none) (hc : 1 ≤ count) (hr : input.HasTail rest)
    (hs : rest.Spells cs)
    (h : (Plan.ofListing p q config input rest count).Reaches
      (Goal.Accounted definitions good depth) o) :
    Accounts (grammar definitions) depth (.further p.expr q.expr config.trailing) input rest cs
      o := by
  -- An element has matched before, so the series has enough and room for more.
  have finish (rest : Slice) : Outcome.ofSeries config.min input rest count =
      .fromRemainder input rest := by
    rw [Outcome.ofSeries, hmin, if_neg (by omega)]
  have room : belowMax config.max count = true := by
    rw [hmax]
    rfl
  rw [Plan.ofListing, if_pos room] at h
  simp only [finish] at h
  obtain ⟨o', accounted, h⟩ := h
  have accounts := accounted hq cs hs
  cases o' with
  | rejected e =>
    cases h
    have separator := accounts.rejected hs
    refine accounts_nothing (.further_stop ?_ (.ending (.filled_failed separator))) hr
    exact .filled_failed (.seq_failed separator)
  | matched taken rest' =>
    obtain ⟨as, bs, rfl, hd, tail, progress, hs', _⟩ := accounts.matched hs
    obtain ⟨o', accounted, h⟩ := h
    have accounts := accounted hp bs hs'
    cases o' with
    | rejected e =>
      have element := accounts.rejected hs'
      have round := DerivesWithin.filled_failed (.seq hd element)
      -- Only a separator that consumes something can be one too many.
      by_cases nil : as = []
      · subst nil
        simp only [if_pos ((tail.size_eq_iff progress).2 rfl)] at h
        cases h
        exact accounts_nothing (.further_stop round (.ending (.filled_empty hd))) hr
      · simp only [if_neg (mt (tail.size_eq_iff progress).1 nil)] at h
        cases trailing : config.trailing with
        | forbidden =>
          rw [trailing] at h
          cases h
          refine accounts_rejected_behind (.further_stop round ?_) hr tail e
          exact .not_failed (.filled nil hd)
        | allowed =>
          rw [trailing] at h
          cases h
          refine accounts_remainder (.further_stop round ?_) hr tail progress
          exact .choice (.filled nil hd)
    | matched taken' rest'' =>
      obtain ⟨as', bs, rfl, hd', tail', progress', hs'', _⟩ := accounts.matched hs'
      have tails := tail.trans tail'
      have sum := tail.progress_append tail' progress progress'
      -- A round that consumes nothing ends the iteration, and what it matched is given back.
      by_cases nil : as ++ as' = []
      · simp only [if_pos ((tails.size_eq_iff sum).2 nil)] at h
        cases h
        obtain ⟨rfl, rfl⟩ := List.append_eq_nil_iff.1 nil
        refine accounts_nothing (.further_stop ?_ (.ending (.filled_empty hd))) hr
        exact .filled_empty (.seq hd hd')
      · simp only [if_neg (mt (tails.size_eq_iff sum).1 nil)] at h
        have accounts := h hp hq hmin hmax (Nat.le_add_left 1 count) (hr.trans tails) bs hs''
        rw [← List.append_assoc]
        refine accounts.behind hr tails sum fun r => .star_seq (.filled nil ?_)
        rw [List.append_assoc]
        exact .seq hd hd'

/-- What a pattern answers is derived, if its goals are accounted for. -/
lemma accounts_ofPattern (hp : p.PegOver good) (hs : input.Spells cs)
    (h : (p.plan input).Reaches (Goal.Accounted definitions good depth) o) :
    Accounts (grammar definitions) depth p.expr input input cs o := by
  cases hp with
  | satisfy accepts =>
    cases h
    exact accounts_ofChar definitions accepts hs
  | literal text =>
    cases h
    exact accounts_ofText definitions text hs
  | endOfInput =>
    cases h
    exact accounts_ofEnd definitions hs
  | concat hp => exact accounts_ofParts hp (.refl input) hs h
  | firstOf hp => exact accounts_ofChoices hp hs h
  -- The expression for an optional body is a choice between it and nothing.
  | optional hb =>
    obtain ⟨o', accounted, h⟩ := h
    have accounts := accounted hb cs hs
    cases o' with
    | matched taken rest =>
      cases h
      exact accounts.of_matched fun _ _ => .choice
    | rejected e =>
      cases h
      exact accounts_empty (.choice_next (accounts.rejected hs) .empty) input
  -- Where the condition is rejected, the negated condition makes the expression succeed.
  | implies hc hq =>
    obtain ⟨o', accounted, h⟩ := h
    have accounts := accounted hc cs hs
    cases o' with
    | rejected e =>
      cases h
      have condition := accounts.rejected hs
      exact accounts_empty (.choice_next (.seq_failed condition) (.not condition)) input
    | matched taken rest =>
      obtain ⟨as, bs, rfl, hd, tail, progress, hs', _⟩ := accounts.matched hs
      obtain ⟨o', accounted, h⟩ := h
      have accounts := accounted hq bs hs'
      cases o' with
      | rejected e =>
        cases h
        have both := DerivesWithin.seq hd (accounts.rejected hs')
        exact accounts_refused (.choice_next both (.not_failed hd)) input _
      | matched taken' rest' =>
        cases h
        obtain ⟨as', bs, rfl, hd', tail', progress', _⟩ := accounts.matched hs'
        have both := DerivesWithin.seq hd hd'
        have sum := tail.progress_append tail' progress progress'
        rw [← List.append_assoc] at both ⊢
        exact accounts_remainder (.choice both) (.refl input) (tail.trans tail') sum
  | repeated min max hb =>
    have accounts := h hb (.refl input) cs hs
    simp only [Nat.sub_zero, Option.map_id'] at accounts
    exact accounts
  | scan hp hq => exact h hp hq (.refl input) cs hs
  | series trailing he hq =>
    rw [Pattern.plan, if_neg (by simp)] at h
    obtain ⟨o', accounted, h⟩ := h
    have accounts := accounted he cs hs
    cases o' with
    | rejected e =>
      cases h
      exact accounts_refused (.seq_failed (accounts.rejected hs)) input e
    | matched taken rest =>
      obtain ⟨as, bs, rfl, hd, tail, progress, hs', _⟩ := accounts.matched hs
      have accounts := h he hq rfl rfl (Nat.le_refl 1) tail bs hs'
      exact accounts.behind (.refl input) tail progress fun r => .seq hd
  | label message hb =>
    obtain ⟨o', accounted, h⟩ := h
    cases h
    exact (accounted hb cs hs).mapRejection hs _
  | context name hb =>
    obtain ⟨o', accounted, h⟩ := h
    cases h
    exact (accounted hb cs hs).mapRejection hs _
  | refer hr => exact h hr cs hs

end Peg

/-- What is reached by way of accounted answers is accounted for, one rule deeper at most. -/
lemma Goal.accounted_of_reaches
    (hd : ∀ rule p, good rule → definitions rule = .defined p → p.PegOver good) {g : Goal ρ}
    {o : Outcome} (h : (g.plan definitions).Reaches (Goal.Accounted definitions good depth) o) :
    g.Accounted definitions good (depth + 1) o := by
  cases g with
  | apply p input =>
    intro hp cs hs
    exact (accounts_ofPattern hp hs h).derives fun _ => .succ
  | repeating body min max input rest count =>
    intro hp hr cs hs
    exact (accounts_ofRepeating hp hr hs h).derives fun _ => .succ
  | scanning stop body input rest =>
    intro hp hq hr cs hs
    exact (accounts_ofScanning hp hq hr hs h).derives fun _ => .succ
  | listing element separator config input rest count =>
    intro hp hq hmin hmax hc hr cs hs
    exact (accounts_ofListing hp hq hmin hmax hc hr hs h).derives fun _ => .succ
  | resolve rule input =>
    intro hg cs hs
    rw [Goal.plan] at h
    have called : ∀ r, DerivesWithin (grammar definitions) depth (definitions rule).expr cs r →
        DerivesWithin (grammar definitions) (depth + 1) (.rule rule) cs r := fun _ => .rule
    split at h
    · next p hr =>
      rw [hr] at called
      exact (h (hd rule p hg hr) cs hs).derives called
    · next name hr =>
      rw [hr] at called
      cases h
      exact accounts_refused (called .failed .fail) input _
    · next hr =>
      rw [hr] at called
      cases h
      exact accounts_refused (called .failed .fail) input _

/-- Every answer of a run is accounted for. -/
lemma Goal.accounted_of_run
    (hd : ∀ rule p, good rule → definitions rule = .defined p → p.PegOver good) {g : Goal ρ}
    {o : Outcome} (h : g.run definitions depth = some o) :
    g.Accounted definitions good depth o := by
  induction depth generalizing g o with
  | zero => cases h
  | succ depth ih => exact g.accounted_of_reaches hd (Plan.reaches_of_follow (fun _ _ => ih) h)

end Recognizer
