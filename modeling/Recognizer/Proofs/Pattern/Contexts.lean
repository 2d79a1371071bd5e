import Recognizer.Proofs.Pattern.Origins
import Recognizer.Proofs.Pattern.Verdict

/-!
# The contexts of rejections

The context of a rejection comes from a context in the pattern, if the pattern is regular and
refers to no rules (`Pattern.RegularOver.mem_contexts`). So a context with none inside names itself
in all rejections.
-/

namespace Recognizer

variable {ρ : Type} {definitions : ρ → Resolution ρ} {good : ρ → Prop} {input : Slice}

namespace Pattern

mutual

/-- The contexts in a pattern. -/
def contexts : Pattern ρ → List String
  | .satisfy _ | .literal _ | .endOfInput | .refer _ | .custom _ => []
  | .concat parts => contextsOfAll parts
  | .firstOf choices => contextsOfAll choices
  | .optional body | .repeated body _ _ | .label body _ => body.contexts
  | .implies condition consequence => condition.contexts ++ consequence.contexts
  | .scan stop body => stop.contexts ++ body.contexts
  | .series element separator _ => element.contexts ++ separator.contexts
  | .context body name => name :: body.contexts

/-- The contexts in some patterns. -/
def contextsOfAll : List (Pattern ρ) → List String
  | [] => []
  | p :: ps => p.contexts ++ contextsOfAll ps

end

variable {p q : Pattern ρ} {name : String}

/-- A context in one of the patterns is a context in all of them together. -/
lemma mem_contextsOfAll {ps : List (Pattern ρ)} (mem : p ∈ ps) (h : name ∈ p.contexts) :
    name ∈ contextsOfAll ps := by
  induction ps with
  | nil => cases mem
  | cons q ps ih =>
    rw [contextsOfAll, List.mem_append]
    cases mem with
    | head => exact .inl h
    | tail _ mem => exact .inr (ih mem)

/-- The contexts of a part whose rejections are handed on are contexts of the whole. -/
lemma HandsOn.mem_contexts (h : p.HandsOn q) (hq : name ∈ q.contexts) : name ∈ p.contexts := by
  cases h with
  | concat mem => exact mem_contextsOfAll mem hq
  | implies | scan => exact List.mem_append_right _ hq
  | series => exact List.mem_append_left _ hq
  | repeated => exact hq

/-- A rejection that has an origin in a pattern without references has its context there too. -/
lemma Origin.mem_contexts {e : Rejection} (h : p.Origin definitions input e)
    (closed : p.RegularOver fun _ => False) (hn : name ∈ e.context) : name ∈ p.contexts := by
  induction h with
  | refuses | givesUp => cases hn
  | handedOn hq _ _ ih => exact hq.mem_contexts (ih (hq.regularOver closed) hn)
  | choice mem _ _ ih =>
    cases closed with
    | firstOf closed => exact mem_contextsOfAll mem (ih (closed _ mem) hn)
  | label message _ ih =>
    cases closed with
    | label _ closed =>
      rw [Rejection.labelled] at hn
      split at hn
      · exact ih closed hn
      · exact ih closed hn
  | @context _ _ e inner _ ih =>
    cases closed with
    | context _ closed =>
      obtain ⟨cause, offset, context⟩ := e
      cases context with
      | none =>
        obtain rfl : inner = name := Option.some.inj hn
        exact List.mem_cons_self
      | some _ => exact List.mem_cons_of_mem _ (ih closed hn)
  | rule =>
    cases closed with
    | refer bad => exact bad.elim

/-- The context of a rejection is one of those in the pattern. -/
theorem RegularOver.mem_contexts (closed : p.RegularOver fun _ => False) {e : Rejection}
    (h : (Goal.apply p input).Yields definitions (.rejected e)) (hn : name ∈ e.context) :
    name ∈ p.contexts :=
  Origin.mem_contexts (closed.explains (fun _ _ bad => bad.elim) h) closed hn

/-- A context names itself in all rejections of its body, if there are no other ones inside. -/
lemma Answers.context_eq_some {cs : List Char} {e : Rejection}
    (closed : (Pattern.context p name).RegularOver fun _ => False)
    (only : (Pattern.context p name).contexts = [name])
    (h : (Pattern.context p name).Answers definitions cs (.refused e)) :
    e.context = some name := by
  obtain ⟨o, inner, outer⟩ := Goal.yields_iff.1 (h.rejected (Slice.spells_whole 0 cs))
  cases o with
  | matched consumed remainder => cases outer
  | rejected e' =>
    have none : e'.context = none := by
      rw [Option.eq_none_iff_forall_not_mem]
      intro name hn
      cases closed with
      | context _ closed =>
        have mem := closed.mem_contexts inner hn
        rw [(List.cons.inj only).2] at mem
        cases mem
    cases outer
    show (e'.context <|> some name) = some name
    rw [none]
    rfl

end Pattern

end Recognizer
