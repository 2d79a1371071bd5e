import Recognizer.Proofs.Peg.Completeness
import Recognizer.Workbench.Basic

/-!
# Patterns answer as parsing expressions derive

The two directions put together (`Pattern.yields_iff_derives`): a pattern matches what its
expression consumes, rejects where it fails, and answers at all where it derives anything. A rule
that calls itself without end tells where the expressions of scans and of repetitions have to be as
careful as they are (`Peg.endless_scan`). Nothing else depends on that: a plain scan has no results
but those of a guarded one (`Peg.DerivesWithin.upTo_of_unguarded`), and a repetition without enough
room has none but failure (`Peg.DerivesWithin.between_failed_of_lt`).
-/

namespace Recognizer

open Text Peg

variable {ρ : Type} {definitions : ρ → Resolution ρ} {good : ρ → Prop} {p : Pattern ρ}
  {input : Slice} {cs : List Char}

/-- An expression has at most one result on a text. -/
theorem Peg.Derives.unique {g : ρ → Expr ρ} {e : Expr ρ} {r r' : Result} (h : Derives g e cs r)
    (h' : Derives g e cs r') : r = r' := by
  obtain ⟨_, h⟩ := h
  obtain ⟨_, h'⟩ := h'
  exact DerivesWithin.unique h h'

/-- What a pattern answers is accounted for by its expression. -/
lemma Pattern.PegOver.accounts
    (hd : ∀ rule q, good rule → definitions rule = .defined q → q.PegOver good)
    (hp : p.PegOver good) (hi : input.Spells cs) {o : Outcome}
    (h : (Goal.apply p input).Yields definitions o) :
    ∃ depth, Accounts (grammar definitions) depth p.expr input input cs o := by
  obtain ⟨depth, h⟩ := h
  exact ⟨depth, Goal.accounted_of_run hd h hp cs hi⟩

/-- What its expression derives is answered. -/
lemma Pattern.PegOver.gives
    (hd : ∀ rule q, good rule → definitions rule = .defined q → q.PegOver good)
    (hp : p.PegOver good) {r : Result} (h : Derives (grammar definitions) p.expr cs r) :
    p.Gives definitions cs r := by
  obtain ⟨depth, h⟩ := h
  exact hp.meets hd depth h

/-- Let a pattern be put together from what parsing expressions can say, and the definitions of the
rules in it as well. It matches exactly what its expression consumes, with the two slices of the
input; it rejects exactly where the expression fails; and there is an answer exactly where the
expression derives a result. -/
theorem Pattern.yields_iff_derives
    (hd : ∀ rule q, good rule → definitions rule = .defined q → q.PegOver good)
    (hp : p.PegOver good) (hi : input.Spells cs) :
    (∀ consumed remainder,
      (Goal.apply p input).Yields definitions (.matched consumed remainder) ↔
        ∃ as bs, Derives (grammar definitions) p.expr cs (.taken as bs) ∧ cs = as ++ bs ∧
          input.splitAt? (byteLength as) = some (consumed, remainder) ∧
          consumed.Spells as ∧ remainder.Spells bs) ∧
    ((∃ e, (Goal.apply p input).Yields definitions (.rejected e)) ↔
      Derives (grammar definitions) p.expr cs .failed) ∧
    ((∃ o, (Goal.apply p input).Yields definitions o) ↔
      ∃ r, Derives (grammar definitions) p.expr cs r) := by
  refine ⟨fun consumed remainder => ⟨fun h => ?_, ?_⟩, ⟨?_, fun h => ?_⟩, ⟨?_, ?_⟩⟩
  · obtain ⟨depth, accounts⟩ := hp.accounts hd hi h
    obtain ⟨as, bs, rfl, derives, split, ha, hb⟩ := accounts.cut hi
    exact ⟨as, bs, ⟨depth, derives⟩, rfl, split, ha, hb⟩
  · rintro ⟨as, bs, derives, -, split, -, -⟩
    have yields := (hp.gives hd derives).taken.yields input hi
    rwa [Verdict.outcome_self_taken, Outcome.split, split] at yields
  · rintro ⟨e, h⟩
    obtain ⟨depth, accounts⟩ := hp.accounts hd hi h
    exact ⟨depth, accounts.rejected hi⟩
  · obtain ⟨e, refused⟩ := (hp.gives hd h).failed
    exact ⟨e, refused.rejected hi⟩
  · rintro ⟨o, h⟩
    obtain ⟨depth, v, _, _, derives⟩ := hp.accounts hd hi h
    exact ⟨v.result, depth, derives⟩
  · rintro ⟨r, h⟩
    obtain ⟨v, _, answers⟩ := hp.gives hd h
    exact ⟨_, answers.yields input hi⟩

/-- A rule for nested lists whose items may be missing and whose last separator may stand alone. -/
def Workbench.listSteps : List Workbench.Step :=
  [.builder "b", .declare "b" "r" "list", .reference "b" "r" "self",
    .define "b" "r" (.concat [.char '(',
      .series (.optional (.refer (.kept "self"))) (.char ',') { trailing := .allowed },
      .char ')']),
    .build "b" "g", .rule "g" "r" "p"]

/-- A list of a list and nothing else, and what is left behind it. -/
theorem Pattern.yields_iff_derives_list :
    (Pattern.refer (.strong ⟨0, 0⟩)).PegOver (fun link : Link => link.rule = ⟨0, 0⟩) ∧
    (∀ link q, link.rule = ⟨0, 0⟩ →
      (Workbench.empty.run Workbench.listSteps).2.scope.definitions link = .defined q →
      q.PegOver fun link => link.rule = ⟨0, 0⟩) ∧
    ∃ as bs, Derives (grammar (Workbench.empty.run Workbench.listSteps).2.scope.definitions)
        (.rule (.strong ⟨0, 0⟩)) "((),)x".toList (.taken as bs) ∧
      Slice.Spells ⟨0, 0, 5, "((),)x".toList⟩ as ∧ Slice.Spells ⟨0, 5, 1, ['x']⟩ bs := by
  have hp : (Pattern.refer (.strong ⟨0, 0⟩)).PegOver (fun link : Link => link.rule = ⟨0, 0⟩) :=
    .refer rfl
  have hd (link : Link) (q : Pattern Link) (hl : link.rule = ⟨0, 0⟩)
      (hq : (Workbench.empty.run Workbench.listSteps).2.scope.definitions link = .defined q) :
      q.PegOver fun link => link.rule = ⟨0, 0⟩ := by
    have list : (Workbench.empty.run Workbench.listSteps).2.scope.definitions link =
        .defined (.concat [.char '(',
          .series (.optional (.refer (.weak ⟨0, 0⟩))) (.char ',') { trailing := .allowed },
          .char ')']) := by
      rw [Scope.definitions, hl]
      rfl
    cases list.symm.trans hq
    refine .concat ?_
    simp only [List.forall_mem_cons]
    exact ⟨.satisfy _, .series .allowed (.optional (.refer rfl)) (.satisfy _), .satisfy _,
      List.forall_mem_nil _⟩
  have yields : (Goal.apply (.refer (.strong ⟨0, 0⟩)) (.ofString 0 "((),)x")).Yields
      (Workbench.empty.run Workbench.listSteps).2.scope.definitions
      (.matched ⟨0, 0, 5, "((),)x".toList⟩ ⟨0, 5, 1, ['x']⟩) := ⟨20, by decide +kernel⟩
  have iff := Pattern.yields_iff_derives hd hp (Slice.spells_whole 0 "((),)x".toList)
  obtain ⟨as, bs, derives, _, _, ha, hb⟩ := (iff.1 _ _).1 yields
  exact ⟨hp, hd, as, bs, derives, ha, hb⟩

/-- A rule that calls itself without end where no character is left. -/
def Peg.endless (_ : Unit) : Resolution Unit :=
  .defined (.firstOf [.satisfy fun _ => true, .refer ()])

namespace Peg

/-- The rule calls itself before it has a result, however deep the calls may be. -/
lemma endless_stuck {depth : Nat} {r : Result} :
    ¬ DerivesWithin (grammar endless) depth (.rule ()) [] r := by
  induction depth generalizing r with
  | zero =>
    intro h
    cases h
  | succ depth ih =>
    intro h
    cases h with
    | rule h =>
      cases h with
      | choice h => cases h
      | choice_next _ h =>
        cases h with
        | choice h => exact ih h
        | choice_next h _ => exact ih h

/-- What has no result has none that consumes something either. -/
lemma filled_stuck {g : Unit → Expr Unit} {e : Expr Unit} {depth : Nat} {r : Result}
    (stuck : ∀ r, ¬ DerivesWithin g depth e cs r) : ¬ DerivesWithin g depth (.filled e) cs r := by
  intro h
  cases h with
  | filled _ h => exact stuck _ h
  | filled_empty h => exact stuck _ h
  | filled_failed h => exact stuck _ h

/-- At the end of the input a scan is refused without a look at its body, where a plain iteration
would call the rule without end. A repetition with less room than it needs calls it all the same,
and is not refused. -/
theorem endless_scan :
    (Goal.apply (.scan (.char 'x') (.refer ())) (.ofString 0 "")).Yields endless
      (.rejected { cause := .unterminated }) ∧
    (¬ ∃ r, Derives (grammar endless)
      (.seq (.star (.seq (.not (.char (· == 'x'))) (.rule ()))) (.char (· == 'x'))) [] r) ∧
    (¬ ∃ o, (Goal.apply (.repeated (.refer ()) 2 (some 1)) (.ofString 0 "")).Yields endless o) ∧
    Derives (grammar endless) .fail [] .failed := by
  refine ⟨⟨3, by decide +kernel⟩, ?_, ?_, 0, .fail⟩
  · rintro ⟨r, depth, h⟩
    have round : ∀ r, ¬ DerivesWithin (grammar endless) depth
        (.seq (.not (.char (· == 'x'))) (.rule ())) [] r := by
      intro r h
      obtain ⟨_, h⟩ | ⟨⟨as, bs, h⟩, _⟩ := h.not_seq_cases
      · exact endless_stuck h
      · cases h
    obtain ⟨as, bs, r', h, _⟩ | ⟨h, _⟩ := h.star_seq_cases
    · exact filled_stuck round h
    · exact filled_stuck round h
  · rintro ⟨o, h⟩
    have hp : (Pattern.repeated (.refer ()) 2 (some 1)).PegOver fun _ : Unit => True :=
      .repeated 2 (some 1) (.refer trivial)
    have hd : ∀ rule q, True → endless rule = .defined q → q.PegOver fun _ : Unit => True := by
      rintro rule q - h
      cases h
      refine .firstOf ?_
      simp only [List.forall_mem_cons]
      exact ⟨.satisfy _, .refer trivial, nofun⟩
    obtain ⟨depth, v, _, _, h⟩ := hp.accounts hd (Slice.spells_whole 0 []) h
    obtain ⟨as, bs, r', h, _⟩ | ⟨h, _⟩ := DerivesWithin.seq_cases h
    · exact filled_stuck (fun _ => endless_stuck) h
    · exact filled_stuck (fun _ => endless_stuck) h

end Peg

end Recognizer
