import Recognizer.Proofs.Grammar.Growth
import Recognizer.Proofs.Grammar.Regular
import Recognizer.Proofs.Pattern.Wording

/-!
# Stores that differ in wording only

Patterns in the places of references, and the steps by which grammars are built, take alike patterns
to alike patterns. So two constructions that differ in wording only fail together or lead to stores
that differ in wording only, and their scopes give links alike definitions
(`Store.Alike.definitions`).
-/

namespace Recognizer

section Both

variable {ε α β α' β' : Type} {holds : α → β → Prop} {holds' : α' → β' → Prop}

/-- Both fail for the same reason, or both succeed and their results are related. -/
inductive Except.Both (holds : α → β → Prop) : Except ε α → Except ε β → Prop where
  | ok {a : α} {b : β} : holds a b → Both holds (.ok a) (.ok b)
  | error (e : ε) : Both holds (.error e) (.error e)

/-- Computations that go on alike end alike. -/
lemma Except.Both.bind {x : Except ε α} {y : Except ε β} {f : α → Except ε α'}
    {g : β → Except ε β'} (h : Except.Both holds x y)
    (hf : ∀ a b, holds a b → Except.Both holds' (f a) (g b)) :
    Except.Both holds' (x >>= f) (y >>= g) := by
  cases h with
  | ok h => exact hf _ _ h
  | error e => exact .error e

/-- A first computation that is the same on both sides gives one result to go on with. -/
lemma Except.both_bind {x : Except ε α} {f : α → Except ε α'} {g : α → Except ε β'}
    (hf : ∀ a, Except.Both holds' (f a) (g a)) : Except.Both holds' (x >>= f) (x >>= g) := by
  cases x with
  | ok a => exact hf a
  | error e => exact .error e

variable {S S' : Type} {inv : S → S' → Prop} {x : StateT S (Except ε) α}
  {y : StateT S' (Except ε) β} {f : α → StateT S (Except ε) α'} {g : β → StateT S' (Except ε) β'}

/-- From related states both computations fail for the same reason, or both succeed with related
results and states. -/
def MaintainsBoth (inv : S → S' → Prop) (x : StateT S (Except ε) α) (y : StateT S' (Except ε) β)
    (holds : α → β → Prop) : Prop :=
  ∀ s s', inv s s' → Except.Both (fun r r' => holds r.1 r'.1 ∧ inv r.2 r'.2) (x s) (y s')

/-- Related results that are there from the start need no states. -/
lemma maintainsBoth_pure {a : α} {b : β} (h : holds a b) :
    MaintainsBoth inv (pure a : StateT S (Except ε) α) (pure b : StateT S' (Except ε) β) holds :=
  fun _ _ hs => .ok ⟨h, hs⟩

/-- Computations one after the other: the second ones may rely on what the first ones guarantee. -/
lemma MaintainsBoth.bind (h : MaintainsBoth inv x y holds)
    (hf : ∀ a b, holds a b → MaintainsBoth inv (f a) (g b) holds') :
    MaintainsBoth inv (x >>= f) (y >>= g) holds' := by
  intro s s' hs
  exact (h s s' hs).bind fun r r' hr => hf r.1 r'.1 hr.1 r.2 r'.2 hr.2

/-- The result on the left is made into another one. -/
lemma MaintainsBoth.map_left {k : α → α'} {holds' : α' → β → Prop} (h : MaintainsBoth inv x y holds)
    (hk : ∀ a b, holds a b → holds' (k a) b) :
    MaintainsBoth inv (x >>= fun a => pure (k a)) y holds' := by
  rw [← bind_pure y]
  exact h.bind fun a b hab => maintainsBoth_pure (hk a b hab)

/-- The result on the right is made into another one. -/
lemma MaintainsBoth.map_right {k : β → β'} {holds' : α → β' → Prop}
    (h : MaintainsBoth inv x y holds) (hk : ∀ a b, holds a b → holds' a (k b)) :
    MaintainsBoth inv x (y >>= fun b => pure (k b)) holds' := by
  rw [← bind_pure x]
  exact h.bind fun a b hab => maintainsBoth_pure (hk a b hab)

end Both

namespace Pattern.Alike

variable {ρ σ ρ' σ' : Type} {offsets : Prop} {rel : ρ → σ → Prop} {rel' : ρ' → σ' → Prop}
  {p : Pattern ρ} {q : Pattern σ}

/-- Sequences of alike parts are alike. -/
lemma concat_of_forall₂ {ps : List (Pattern ρ)} {qs : List (Pattern σ)}
    (h : List.Forall₂ (Alike offsets rel) ps qs) :
    (Pattern.concat ps).Alike offsets rel (Pattern.concat qs) :=
  .concat h.length_eq fun _ hpq => (List.forall₂_iff_zip.1 h).2 hpq

/-- Choices from alike patterns are alike. -/
lemma firstOf_of_forall₂ {ps : List (Pattern ρ)} {qs : List (Pattern σ)}
    (h : List.Forall₂ (Alike offsets rel) ps qs) :
    (Pattern.firstOf ps).Alike offsets rel (Pattern.firstOf qs) :=
  .firstOf h.length_eq fun _ hpq => (List.forall₂_iff_zip.1 h).2 hpq

/-- What is alike is so from either side. -/
lemma symm (h : p.Alike offsets rel q) : q.Alike offsets (fun b a => rel a b) p := by
  induction h with
  | satisfy accepts => exact .satisfy accepts
  | literal text => exact .literal text
  | endOfInput => exact .endOfInput
  | custom answer => exact .custom answer
  | reject he => exact .reject fun ho input => (he ho input).symm
  | concat len _ ih => exact concat_of_forall₂ (.flip (List.forall₂_iff_zip.2 ⟨len, ih _⟩))
  | firstOf len _ ih => exact firstOf_of_forall₂ (.flip (List.forall₂_iff_zip.2 ⟨len, ih _⟩))
  | optional _ ih => exact .optional ih
  | implies _ _ ih ih' => exact .implies ih ih'
  | repeated min max _ ih => exact .repeated min max ih
  | scan _ _ ih ih' => exact .scan ih ih'
  | series config _ _ ih ih' => exact .series config ih ih'
  | refer hr => exact .refer hr
  | label_left message _ ih => exact .label_right message ih
  | label_right message _ ih => exact .label_left message ih
  | context_left name _ ih => exact .context_right name ih
  | context_right name _ ih => exact .context_left name ih

/-- Lists of patterns stay alike when their references are replaced by alike patterns. -/
lemma forall₂_bindAll {f : ρ → Pattern ρ'} {g : σ → Pattern σ'} {ps : List (Pattern ρ)}
    {qs : List (Pattern σ)}
    (h : List.Forall₂ (fun p q => (p.bind f).Alike offsets rel' (q.bind g)) ps qs) :
    List.Forall₂ (Alike offsets rel') (bindAll f ps) (bindAll g qs) := by
  induction h with
  | nil => exact .nil
  | cons h _ ih => exact .cons h ih

/-- Alike patterns in the places of alike references make alike patterns. -/
lemma bind {f : ρ → Pattern ρ'} {g : σ → Pattern σ'}
    (hf : ∀ a b, rel a b → (f a).Alike offsets rel' (g b)) (h : p.Alike offsets rel q) :
    (p.bind f).Alike offsets rel' (q.bind g) := by
  induction h with
  | satisfy accepts => exact .satisfy accepts
  | literal text => exact .literal text
  | endOfInput => exact .endOfInput
  | custom answer => exact .custom answer
  | reject he => exact .reject he
  | concat len _ ih =>
    exact concat_of_forall₂ (forall₂_bindAll (List.forall₂_iff_zip.2 ⟨len, ih _⟩))
  | firstOf len _ ih =>
    exact firstOf_of_forall₂ (forall₂_bindAll (List.forall₂_iff_zip.2 ⟨len, ih _⟩))
  | optional _ ih => exact .optional ih
  | implies _ _ ih ih' => exact .implies ih ih'
  | repeated min max _ ih => exact .repeated min max ih
  | scan _ _ ih ih' => exact .scan ih ih'
  | series config _ _ ih ih' => exact .series config ih ih'
  | refer hr => exact hf _ _ hr
  | label_left message _ ih => exact .label_left message ih
  | label_right message _ ih => exact .label_right message ih
  | context_left name _ ih => exact .context_left name ih
  | context_right name _ ih => exact .context_right name ih

/-- Alike patterns have related references, one by one. -/
lemma forall₂_referencesOfAll {ps : List (Pattern ρ)} {qs : List (Pattern σ)}
    (h : List.Forall₂ (fun p q => List.Forall₂ rel p.references q.references) ps qs) :
    List.Forall₂ rel (referencesOfAll ps) (referencesOfAll qs) := by
  induction h with
  | nil => exact .nil
  | cons h _ ih => exact List.rel_append h ih

/-- Alike patterns have alike references in the same order. -/
lemma references (h : p.Alike offsets rel q) : List.Forall₂ rel p.references q.references := by
  induction h with
  | satisfy accepts => exact .nil
  | literal text => exact .nil
  | endOfInput => exact .nil
  | custom answer => exact .nil
  | reject he => exact .nil
  | concat len _ ih => exact forall₂_referencesOfAll (List.forall₂_iff_zip.2 ⟨len, ih _⟩)
  | firstOf len _ ih => exact forall₂_referencesOfAll (List.forall₂_iff_zip.2 ⟨len, ih _⟩)
  | optional _ ih => exact ih
  | implies _ _ ih ih' => exact List.rel_append ih ih'
  | repeated min max _ ih => exact ih
  | scan _ _ ih ih' => exact List.rel_append ih ih'
  | series config _ _ ih ih' => exact List.rel_append ih ih'
  | refer hr => exact .cons hr .nil
  | label_left message _ ih => exact ih
  | label_right message _ ih => exact ih
  | context_left name _ ih => exact ih
  | context_right name _ ih => exact ih

variable {ε S S' : Type} {inv : S → S' → Prop} {f : ρ → StateT S (Except ε) ρ'}
  {g : σ → StateT S' (Except ε) σ'}

/-- The same for lists of patterns, one after the other. -/
lemma mapAllM {ps : List (Pattern ρ)} {qs : List (Pattern σ)}
    (h : List.Forall₂ (fun p q => MaintainsBoth inv (p.mapM f) (q.mapM g) (Alike offsets rel'))
      ps qs) :
    MaintainsBoth inv (Pattern.mapAllM f ps) (Pattern.mapAllM g qs)
      (List.Forall₂ (Alike offsets rel')) := by
  induction h with
  | nil => exact maintainsBoth_pure .nil
  | cons h _ ih =>
    apply h.bind
    intro p q hpq
    exact ih.bind fun _ _ hs => maintainsBoth_pure (.cons hpq hs)

/-- If alike references are exchanged for alike ones, alike patterns are. -/
lemma mapM (hf : ∀ a b, rel a b → MaintainsBoth inv (f a) (g b) rel') (h : p.Alike offsets rel q) :
    MaintainsBoth inv (p.mapM f) (q.mapM g) (Alike offsets rel') := by
  induction h with
  | satisfy accepts => exact maintainsBoth_pure (.satisfy accepts)
  | literal text => exact maintainsBoth_pure (.literal text)
  | endOfInput => exact maintainsBoth_pure .endOfInput
  | custom answer => exact maintainsBoth_pure (.custom answer)
  | reject he => exact maintainsBoth_pure (.reject he)
  | concat len _ ih =>
    exact (mapAllM (List.forall₂_iff_zip.2 ⟨len, ih _⟩)).bind fun _ _ h =>
      maintainsBoth_pure (concat_of_forall₂ h)
  | firstOf len _ ih =>
    exact (mapAllM (List.forall₂_iff_zip.2 ⟨len, ih _⟩)).bind fun _ _ h =>
      maintainsBoth_pure (firstOf_of_forall₂ h)
  | optional _ ih => exact ih.bind fun _ _ h => maintainsBoth_pure (.optional h)
  | implies _ _ ih ih' =>
    apply ih.bind
    intro _ _ h
    exact ih'.bind fun _ _ h' => maintainsBoth_pure (.implies h h')
  | repeated min max _ ih => exact ih.bind fun _ _ h => maintainsBoth_pure (.repeated min max h)
  | scan _ _ ih ih' =>
    apply ih.bind
    intro _ _ h
    exact ih'.bind fun _ _ h' => maintainsBoth_pure (.scan h h')
  | series config _ _ ih ih' =>
    apply ih.bind
    intro _ _ h
    exact ih'.bind fun _ _ h' => maintainsBoth_pure (.series config h h')
  | refer hr => exact (hf _ _ hr).bind fun _ _ h => maintainsBoth_pure (.refer h)
  | label_left message _ ih => exact ih.map_left fun _ _ h => .label_left message h
  | label_right message _ ih => exact ih.map_right fun _ _ h => .label_right message h
  | context_left name _ ih => exact ih.map_left fun _ _ h => .context_left name h
  | context_right name _ ih => exact ih.map_right fun _ _ h => .context_right name h

end Pattern.Alike

mutual

/-- Every pattern is alike to itself. -/
lemma Pattern.Alike.refl {ρ : Type} (offsets : Prop) (p : Pattern ρ) : p.Alike offsets Eq p := by
  cases p with
  | satisfy accepts => exact .satisfy accepts
  | literal text => exact .literal text
  | endOfInput => exact .endOfInput
  | custom answer => exact .custom answer
  | concat parts => exact concat_of_forall₂ (forall₂_refl offsets parts)
  | firstOf choices => exact firstOf_of_forall₂ (forall₂_refl offsets choices)
  | optional body => exact .optional (refl offsets body)
  | implies condition consequence =>
    exact .implies (refl offsets condition) (refl offsets consequence)
  | repeated body min max => exact .repeated min max (refl offsets body)
  | scan stop body => exact .scan (refl offsets stop) (refl offsets body)
  | series element separator config =>
    exact .series config (refl offsets element) (refl offsets separator)
  | label body message => exact .label_left message (.label_right message (refl offsets body))
  | context body name => exact .context_left name (.context_right name (refl offsets body))
  | refer rule => exact .refer rfl

/-- So is each pattern in a list. -/
lemma Pattern.Alike.forall₂_refl {ρ : Type} (offsets : Prop) (ps : List (Pattern ρ)) :
    List.Forall₂ (Alike offsets Eq) ps ps := by
  cases ps with
  | nil => exact .nil
  | cons p ps => exact .cons (refl offsets p) (forall₂_refl offsets ps)

end

variable {offsets : Prop}

/-- The patterns are alike and the same tables are kept. -/
structure Keeper.Alike (offsets : Prop) (keeper keeper' : Keeper) : Prop where
  pattern : keeper.pattern.Alike offsets Eq keeper'.pattern
  tables : keeper.tables = keeper'.tables

/-- The same name, and alike definitions or none. -/
structure Slot.Alike (offsets : Prop) (slot slot' : Slot) : Prop where
  name : slot.name = slot'.name
  definition : Option.Rel (Keeper.Alike offsets) slot.definition? slot'.definition?

/-- The same tables with alike rules. -/
def Store.Alike (offsets : Prop) (s s' : Store) : Prop :=
  List.Forall₂ (List.Forall₂ (Slot.Alike offsets)) s.tables s'.tables

section Lists

variable {α β : Type} {R : α → β → Prop} {l : List α} {l' : List β}

/-- Related lists are made into one and the same. -/
lemma flatMap_eq {γ : Type} (h : List.Forall₂ R l l') {f : α → List γ} {g : β → List γ}
    (hf : ∀ a b, R a b → f a = g b) : l.flatMap f = l'.flatMap g := by
  induction h with
  | nil => rfl
  | cons h _ ih => rw [List.flatMap_cons, List.flatMap_cons, hf _ _ h, ih]

end Lists

/-- Alike patterns keep the same tables. -/
lemma Keeper.Alike.ofPattern {p q : Pattern Link} (h : p.Alike offsets Eq q) :
    (Keeper.ofPattern p).Alike offsets (.ofPattern q) := by
  refine ⟨h, ?_⟩
  have references : p.references = q.references := List.forall₂_eq_eq_eq ▸ h.references
  show p.keeps = q.keeps
  rw [Pattern.keeps, Pattern.keeps, references]

/-- Alike keepers are put together to alike ones. -/
lemma Keeper.Alike.assemble {p q : Pattern Keeper}
    (h : p.Alike offsets (Keeper.Alike offsets) q) :
    (Keeper.assemble p).Alike offsets (.assemble q) := by
  refine ⟨h.bind fun _ _ hk => hk.pattern, ?_⟩
  show List.eraseDups _ = List.eraseDups _
  rw [flatMap_eq h.references fun _ _ hk => hk.tables]

namespace Store

variable {s s' : Store}

namespace Alike

/-- Alike stores have alike slots in each table. -/
lemma slots (h : s.Alike offsets s') (table : Nat) :
    List.Forall₂ (Slot.Alike offsets) (s.slots table) (s'.slots table) := by
  have rel := rel_getElem? h table
  rw [Store.slots, Store.slots]
  generalize s.tables[table]? = t at rel ⊢
  generalize s'.tables[table]? = t' at rel ⊢
  cases rel with
  | none => exact .nil
  | some h => exact h

/-- Alike stores have alike slots at each place. -/
lemma slot? (h : s.Alike offsets s') (place : RuleId) :
    Option.Rel (Slot.Alike offsets) (s.slot? place) (s'.slot? place) :=
  rel_getElem? (h.slots place.table) place.index

/-- Alike stores have alike definitions at each place. -/
lemma definition? (h : s.Alike offsets s') (place : RuleId) :
    Option.Rel (Keeper.Alike offsets) ((s.slot? place).bind Slot.definition?)
      ((s'.slot? place).bind Slot.definition?) := by
  have slot := h.slot? place
  generalize s.slot? place = slot? at slot ⊢
  generalize s'.slot? place = slot?' at slot ⊢
  cases slot with
  | none => exact .none
  | some hs => exact hs.definition

/-- Handles belong to the same tables. -/
lemma owns_iff (h : s.Alike offsets s') (table : Nat) (rule : Rule) :
    s.Owns table rule ↔ s'.Owns table rule := by
  rw [Owns, Owns, (h.slots table).length_eq]

/-- New builders are the same, and the stores stay alike. -/
lemma newBuilder (h : s.Alike offsets s') :
    s.newBuilder.1 = s'.newBuilder.1 ∧ s.newBuilder.2.Alike offsets s'.newBuilder.2 := by
  refine ⟨?_, List.rel_append h (.cons .nil .nil)⟩
  rw [Store.newBuilder, Store.newBuilder, h.length_eq]

/-- Declared handles are the same, and the stores stay alike. -/
lemma declare (h : s.Alike offsets s') (b : Builder) (name : String) :
    (s.declare b name).1 = (s'.declare b name).1 ∧
      (s.declare b name).2.Alike offsets (s'.declare b name).2 := by
  constructor
  · rw [Store.declare, Store.declare, (h.slots b.table).length_eq]
  · exact forall₂_modify h fun _ _ _ ht => List.rel_append ht (.cons ⟨rfl, .none⟩ .nil)

/-- References are the same, or are refused alike. -/
lemma reference (h : s.Alike offsets s') (b : Builder) (rule : Rule) :
    s.reference b rule = s'.reference b rule := by
  rw [Store.reference, Store.reference]
  exact if_congr (h.owns_iff b.table rule) rfl rfl

/-- Rules of grammars are the same, or are refused alike. -/
lemma rule (h : s.Alike offsets s') (g : Grammar) (rule : Rule) :
    s.rule g rule = s'.rule g rule := by
  rw [Store.rule, Store.rule]
  exact if_congr (h.owns_iff g.table rule) rfl rfl

/-- Definitions by alike patterns leave alike stores, or are refused alike. -/
lemma define (h : s.Alike offsets s') (b : Builder) (rule : Rule) {keeper keeper' : Keeper}
    (hk : keeper.Alike offsets keeper') :
    Except.Both (Store.Alike offsets) (s.define b rule keeper) (s'.define b rule keeper') := by
  rw [Store.define, Store.define]
  by_cases owns : s.Owns b.table rule
  · rw [if_pos owns, if_pos ((h.owns_iff b.table rule).1 owns)]
    have definition := h.definition? rule.id
    generalize (s.slot? rule.id).bind Slot.definition? = d at definition ⊢
    generalize (s'.slot? rule.id).bind Slot.definition? = d' at definition ⊢
    cases definition with
    | some _ => exact .error _
    | none =>
      refine .ok (forall₂_modify h fun _ _ _ ht => forall₂_modify ht fun _ _ _ hs => ?_)
      exact ⟨hs.name, .some hk⟩
  · rw [if_neg owns, if_neg fun owns' => owns ((h.owns_iff b.table rule).2 owns')]
    exact .error _

/-- The first rule without a definition has the same name on both sides. -/
lemma build (h : s.Alike offsets s') (b : Builder) : s.build b = s'.build b := by
  have slots := h.slots b.table
  rw [Store.build, Store.build]
  generalize s.slots b.table = table at slots ⊢
  generalize s'.slots b.table = table' at slots ⊢
  induction slots with
  | nil => rfl
  | @cons slot slot' _ _ hs _ ih =>
    have definition := hs.definition
    rw [List.find?_cons, List.find?_cons]
    generalize slot.definition? = d at definition ⊢
    generalize slot'.definition? = d' at definition ⊢
    cases definition with
    | none => simp only [Option.isNone_none, hs.name]
    | some _ => exact ih

/-- Tables keep the same tables. -/
lemma keptBy (h : s.Alike offsets s') (table : Nat) : s.keptBy table = s'.keptBy table := by
  refine flatMap_eq (h.slots table) fun slot slot' hs => ?_
  have definition := hs.definition
  generalize slot.definition? = d at definition ⊢
  generalize slot'.definition? = d' at definition ⊢
  cases definition with
  | none => rfl
  | some hk => exact hk.tables

/-- The same tables are held. -/
lemma holds_iff (h : s.Alike offsets s') {roots : List Nat} {table : Nat} :
    s.Holds roots table ↔ s'.Holds roots table := by
  constructor
  · intro ht
    induction ht with
    | root ht => exact .root ht
    | kept _ hk ih => exact .kept ih (h.keptBy _ ▸ hk)
  · intro ht
    induction ht with
    | root ht => exact .root ht
    | kept _ hk ih => exact .kept ih ((h.keptBy _).symm ▸ hk)

/-- Links lead to alike definitions. -/
theorem definitions (h : s.Alike offsets s') (roots : List Nat) (link : Link) :
    Resolution.Alike offsets Eq ((Scope.ofRoots s roots).definitions link)
      ((Scope.ofRoots s' roots).definitions link) := by
  have held : link.rule.table ∈ s.heldFrom roots ↔ link.rule.table ∈ s'.heldFrom roots := by
    rw [mem_heldFrom, mem_heldFrom, h.holds_iff]
  rw [Scope.definitions, Scope.definitions, Scope.ofRoots, Scope.ofRoots]
  by_cases ht : link.rule.table ∈ s.heldFrom roots
  · rw [if_pos ht, if_pos (held.1 ht)]
    have slot := h.slot? link.rule
    generalize s.slot? link.rule = slot? at slot ⊢
    generalize s'.slot? link.rule = slot?' at slot ⊢
    cases slot with
    | none => exact .dropped
    | @some slot slot' hs =>
      obtain ⟨name, definition?⟩ := slot
      obtain ⟨name', definition?'⟩ := slot'
      cases hs.definition with
      | none => exact .undefined name name'
      | some hk => exact .defined hk.pattern
  · rw [if_neg ht, if_neg fun ht' => ht (held.2 ht')]
    exact .dropped

end Alike

end Store

end Recognizer
