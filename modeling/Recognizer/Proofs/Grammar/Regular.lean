import Recognizer.Grammar.Held
import Recognizer.Pattern.References
import Recognizer.Proofs.Pattern.Cuts

/-!
# Regular stores

Putting patterns in the places of references keeps patterns regular (`RegularOver.bind`), and so
does preparing the references one by one (`RegularOver.mapM`). A store is regular if all the
definitions in it are; the steps by which grammars are built keep it so.
-/

namespace Recognizer

variable {ρ σ : Type} {good : ρ → Prop} {good' : σ → Prop}

/-- The result of two computations comes by way of a result of the first. -/
lemma Except.bind_ok {ε α β : Type} {x : Except ε α} {f : α → Except ε β} {b : β}
    (h : x >>= f = .ok b) : ∃ a, x = .ok a ∧ f a = .ok b := by
  cases x with
  | error e => cases h
  | ok a => exact ⟨a, rfl, h⟩

section Maintains

variable {ε S α β : Type} {inv : S → Prop} {holds : α → Prop} {holds' : β → Prop}
  {x : StateT S (Except ε) α} {f : α → StateT S (Except ε) β}

/-- If the computation succeeds, its result satisfies `holds`, and the state still satisfies
`inv`. -/
def Maintains (inv : S → Prop) (x : StateT S (Except ε) α) (holds : α → Prop) : Prop :=
  ∀ s a s', inv s → x s = .ok (a, s') → holds a ∧ inv s'

/-- A result that is there from the start needs no state. -/
lemma maintains_pure {a : α} (h : holds a) :
    Maintains inv (pure a : StateT S (Except ε) α) holds := by
  intro s a' s' hs e
  cases e
  exact ⟨h, hs⟩

/-- Computations one after the other: the second may rely on what the first guarantees. -/
lemma Maintains.bind (hx : Maintains inv x holds)
    (hf : ∀ a, holds a → Maintains inv (f a) holds') : Maintains inv (x >>= f) holds' := by
  intro s b s' hs e
  obtain ⟨⟨a, s₁⟩, ha, e⟩ := Except.bind_ok e
  obtain ⟨h, hs₁⟩ := hx s a s₁ hs ha
  exact hf a h s₁ b s' hs₁ e

end Maintains

namespace Pattern.RegularOver

/-- Patterns stay regular when references in a list of them are replaced. -/
lemma bindAll {f : ρ → Pattern σ} {ps : List (Pattern ρ)}
    (h : ∀ p ∈ ps, (p.bind f).RegularOver good') :
    ∀ q ∈ Pattern.bindAll f ps, q.RegularOver good' := by
  induction ps with
  | nil =>
    intro q hq
    cases hq
  | cons p ps ih =>
    rw [Pattern.bindAll, List.forall_mem_cons]
    rw [List.forall_mem_cons] at h
    exact ⟨h.1, ih h.2⟩

/-- Regular patterns in the places of references make a regular pattern. -/
lemma bind {f : ρ → Pattern σ} (hf : ∀ rule, good rule → (f rule).RegularOver good')
    {p : Pattern ρ} (hp : p.RegularOver good) : (p.bind f).RegularOver good' := by
  induction hp with
  | satisfy accepts => exact .satisfy accepts
  | literal text => exact .literal text
  | endOfInput => exact .endOfInput
  | concat _ ih => exact .concat (bindAll ih)
  | firstOf _ ih => exact .firstOf (bindAll ih)
  | optional _ ih => exact .optional ih
  | implies _ _ ihc ihq => exact .implies ihc ihq
  | repeated min max _ ih => exact .repeated min max ih
  | scan _ _ ihs ihb => exact .scan ihs ihb
  | series config _ _ ihe ihs => exact .series config ihe ihs
  | label message _ ih => exact .label message ih
  | context name _ ih => exact .context name ih
  | refer hr => exact hf _ hr
  | cut place => exact .cut place

variable {ε S : Type} {inv : S → Prop} {f : ρ → StateT S (Except ε) σ}

/-- The same for a list of patterns, one after the other. -/
lemma mapAllM {ps : List (Pattern ρ)}
    (h : ∀ p ∈ ps, Maintains inv (p.mapM f) (RegularOver good')) :
    Maintains inv (Pattern.mapAllM f ps) fun qs => ∀ q ∈ qs, q.RegularOver good' := by
  induction ps with
  | nil =>
    apply maintains_pure
    intro q hq
    cases hq
  | cons p ps ih =>
    rw [List.forall_mem_cons] at h
    apply h.1.bind
    intro q hq
    apply (ih h.2).bind
    intro qs hqs
    exact maintains_pure (List.forall_mem_cons.2 ⟨hq, hqs⟩)

/-- Exchanging the references keeps a pattern regular, and the invariant that each exchange
keeps. -/
lemma mapM (hf : ∀ rule, good rule → Maintains inv (f rule) good') {p : Pattern ρ}
    (hp : p.RegularOver good) : Maintains inv (p.mapM f) (RegularOver good') := by
  induction hp with
  | satisfy accepts => exact maintains_pure (.satisfy accepts)
  | literal text => exact maintains_pure (.literal text)
  | endOfInput => exact maintains_pure .endOfInput
  | cut place => exact maintains_pure (.cut place)
  | concat _ ih => exact (mapAllM ih).bind fun _ h => maintains_pure (.concat h)
  | firstOf _ ih => exact (mapAllM ih).bind fun _ h => maintains_pure (.firstOf h)
  | optional _ ih => exact ih.bind fun _ h => maintains_pure (.optional h)
  | implies _ _ ihc ihq =>
    apply ihc.bind
    intro _ hc
    exact ihq.bind fun _ hq => maintains_pure (.implies hc hq)
  | repeated min max _ ih => exact ih.bind fun _ h => maintains_pure (.repeated min max h)
  | scan _ _ ihs ihb =>
    apply ihs.bind
    intro _ hs
    exact ihb.bind fun _ hb => maintains_pure (.scan hs hb)
  | series config _ _ ihe ihs =>
    apply ihe.bind
    intro _ he
    exact ihs.bind fun _ hs => maintains_pure (.series config he hs)
  | label message _ ih => exact ih.bind fun _ h => maintains_pure (.label message h)
  | context name _ ih => exact ih.bind fun _ h => maintains_pure (.context name h)
  | refer hr => exact (hf _ hr).bind fun _ h => maintains_pure (.refer h)

end Pattern.RegularOver

namespace Store

variable {s : Store}

/-- All definitions are regular. -/
def Regular (s : Store) : Prop :=
  ∀ table ∈ s.tables, ∀ slot ∈ table, ∀ keeper ∈ slot.definition?, keeper.pattern.Regular

/-- A store without tables has no definitions that could be irregular. -/
lemma regular_empty : empty.Regular :=
  fun _ ht => nomatch ht

/-- A new builder has no definitions. -/
lemma Regular.newBuilder (h : s.Regular) : s.newBuilder.2.Regular := by
  intro table ht
  rcases List.mem_append.1 ht with ht | ht
  · exact h table ht
  · rw [List.mem_singleton.1 ht]
    exact fun _ hs => nomatch hs

/-- A table that is changed stays regular if the change gives regular slots only. -/
lemma Regular.modify (h : s.Regular) (table : Nat) {change : Table → Table}
    (hc : ∀ t ∈ s.tables, ∀ slot ∈ change t, ∀ keeper ∈ slot.definition?,
      keeper.pattern.Regular) : (Store.mk (s.tables.modify table change)).Regular := by
  intro t ht
  obtain ⟨i, hi⟩ := List.mem_iff_getElem?.1 ht
  rw [List.getElem?_modify] at hi
  split at hi
  · obtain ⟨t', ht', rfl⟩ := Option.map_eq_some_iff.1 hi
    exact hc t' (List.mem_of_getElem? ht')
  · exact h t (List.mem_of_getElem? (by simpa using hi))

/-- A declared rule has no definition yet. -/
lemma Regular.declare (h : s.Regular) (b : Builder) (name : String) :
    (s.declare b name).2.Regular := by
  refine h.modify b.table fun t ht slot hs => ?_
  rcases List.mem_append.1 hs with hs | hs
  · exact h t ht slot hs
  · rw [List.mem_singleton.1 hs]
    exact fun _ hk => nomatch hk

/-- References are regular. -/
lemma regular_reference {b : Builder} {rule : Rule} {p : Pattern Link}
    (h : s.reference b rule = .ok p) : p.Regular := by
  rw [reference] at h
  split at h
  · cases h
    exact .refer trivial
  · cases h

/-- So are rules of a grammar. -/
lemma regular_rule {g : Grammar} {rule : Rule} {p : Pattern Link} (h : s.rule g rule = .ok p) :
    p.Regular := by
  rw [Store.rule] at h
  split at h
  · cases h
    exact .refer trivial
  · cases h

/-- A definition by a regular pattern keeps the store regular. -/
lemma Regular.define (h : s.Regular) {b : Builder} {rule : Rule} {keeper : Keeper} {s' : Store}
    (hk : keeper.pattern.Regular) (hd : s.define b rule keeper = .ok s') : s'.Regular := by
  rw [Store.define] at hd
  split at hd
  · split at hd
    · cases hd
    · cases hd
      refine h.modify b.table fun t ht slot hs => ?_
      obtain ⟨i, hi⟩ := List.mem_iff_getElem?.1 hs
      rw [List.getElem?_modify] at hi
      split at hi
      · obtain ⟨slot', _, rfl⟩ := Option.map_eq_some_iff.1 hi
        intro keeper' hk'
        cases hk'
        exact hk
      · exact h t ht slot (List.mem_of_getElem? (by simpa using hi))
  · cases hd

/-- A scope leads to the definitions of its store only. -/
lemma Regular.definitions {scope : Scope} (h : scope.store.Regular) {link : Link}
    {p : Pattern Link} (hd : scope.definitions link = .defined p) : p.Regular := by
  rw [Scope.definitions] at hd
  split at hd
  · split at hd
    · next name keeper hs =>
      cases hd
      rw [slot?, slots] at hs
      cases ht : scope.store.tables[link.rule.table]? with
      | none =>
        rw [ht] at hs
        cases hs
      | some table =>
        rw [ht] at hs
        exact h table (List.mem_of_getElem? ht) _ (List.mem_of_getElem? hs) keeper rfl
    · cases hd
    · cases hd
  · cases hd

end Store

end Recognizer
