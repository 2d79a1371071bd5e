import Recognizer.Proofs.Grammar.Wording
import Recognizer.Proofs.Workbench.Shelves
import Recognizer.Proofs.Workbench.Steps

/-!
# Wording decides nothing on a workbench

Two sequences of steps whose recipes differ only in labels, contexts and what is said by patterns
that reject everything keep the same workbench up to wording (`Workbench.Alike.run`). So the
patterns kept under a name match the same inputs in the same way (`Workbench.recognition_of_alike`).
-/

namespace Recognizer

variable {offsets : Prop}

/-- Alike stores, and as many texts. -/
structure Supply.Alike (offsets : Prop) (supply supply' : Supply) : Prop where
  store : supply.store.Alike offsets supply'.store
  texts : supply.texts = supply'.texts

/-- A slot is like itself. -/
lemma Slot.Alike.refl (offsets : Prop) (slot : Slot) : slot.Alike offsets slot := by
  obtain ⟨name, definition?⟩ := slot
  cases definition? with
  | none => exact ⟨rfl, .none⟩
  | some keeper => exact ⟨rfl, .some ⟨.refl offsets keeper.pattern, rfl⟩⟩

/-- The same ingredient is prepared in the same way from alike patterns and stores. -/
lemma Supply.prepare_both {kept kept' : String → Option Keeper}
    (hk : ∀ name, Option.Rel (Keeper.Alike offsets) (kept name) (kept' name))
    (ingredient : Ingredient) :
    MaintainsBoth (Supply.Alike offsets) (prepare kept ingredient) (prepare kept' ingredient)
      (Keeper.Alike offsets) := by
  rintro ⟨store, texts⟩ ⟨store', _⟩ ⟨hs, rfl⟩
  cases ingredient with
  | kept name =>
    have keeper := hk name
    simp only [prepare]
    generalize kept name = k at keeper ⊢
    generalize kept' name = k' at keeper ⊢
    cases keeper with
    | none => exact .error _
    | some hk => exact .ok ⟨hk, hs, rfl⟩
  | json entry options =>
    simp only [prepare, entry.prepare_eq]
    rw [← hs.length_eq]
    refine .ok ⟨.ofPattern (.refl offsets _), List.rel_append hs ?_, rfl⟩
    exact List.forall₂_same.2 fun _ _ => List.forall₂_same.2 fun slot _ => .refl offsets slot
  | stray consumed remainder => exact .ok ⟨.ofPattern (.refl offsets _), hs, rfl⟩

/-- Alike recipes are prepared alike. -/
lemma Supply.realize_both {kept kept' : String → Option Keeper}
    (hk : ∀ name, Option.Rel (Keeper.Alike offsets) (kept name) (kept' name))
    {recipe recipe' : Recipe} (hr : recipe.Alike offsets Eq recipe') {supply supply' : Supply}
    (hs : supply.Alike offsets supply') :
    Except.Both (fun r r' => Keeper.Alike offsets r.1 r'.1 ∧ Supply.Alike offsets r.2 r'.2)
      (supply.realize kept recipe) (supply'.realize kept' recipe') := by
  have prepared (ingredient ingredient' : Ingredient) (e : ingredient = ingredient') :
      MaintainsBoth (Supply.Alike offsets) (prepare kept ingredient) (prepare kept' ingredient')
        (Keeper.Alike offsets) := e ▸ prepare_both hk ingredient
  exact (hr.mapM prepared supply supply' hs).bind fun _ _ h => .ok ⟨.assemble h.1, h.2⟩

namespace Workbench

/-- The same step with the same recipe up to wording. -/
inductive Step.Alike (offsets : Prop) : Step → Step → Prop where
  | keep (pattern : String) {recipe recipe' : Recipe} : recipe.Alike offsets Eq recipe' →
    Alike offsets (.keep pattern recipe) (.keep pattern recipe')
  | define (builder handle : String) {recipe recipe' : Recipe} : recipe.Alike offsets Eq recipe' →
    Alike offsets (.define builder handle recipe) (.define builder handle recipe')
  | same (s : Step) : Alike offsets s s

/-- The same workbench up to the wording of its patterns and definitions. -/
structure Alike (offsets : Prop) (w w' : Workbench) : Prop where
  supply : w.toSupply.Alike offsets w'.toSupply
  builders : w.builders = w'.builders
  grammars : w.grammars = w'.grammars
  handles : w.handles = w'.handles
  patterns : w.patterns.Alike (Keeper.Alike offsets) w'.patterns

variable {w w' : Workbench}

/-- Links lead to alike definitions on alike workbenches. -/
lemma Alike.scope (h : w.Alike offsets w') (link : Link) :
    Resolution.Alike offsets Eq (w.scope.definitions link) (w'.scope.definitions link) := by
  have patterns : w.patterns.values.flatMap Keeper.tables =
      w'.patterns.values.flatMap Keeper.tables := by
    rw [Shelf.values, Shelf.values, List.flatMap_map, List.flatMap_map]
    exact flatMap_eq h.patterns fun _ _ hk => hk.2.tables
  have roots : w.roots = w'.roots := by
    rw [Workbench.roots, Workbench.roots, h.builders, h.grammars, patterns]
  rw [Workbench.scope, Workbench.scope, roots]
  exact h.supply.store.definitions w'.roots link

/-- Alike patterns may be kept under a name. -/
lemma Alike.putPattern (h : w.Alike offsets w') (name : String) {keeper keeper' : Keeper}
    (hk : keeper.Alike offsets keeper') :
    Alike offsets { w with patterns := w.patterns.put name keeper }
      { w' with patterns := w'.patterns.put name keeper' } :=
  { h with patterns := h.patterns.put name hk }

/-- Alike recipes have alike patterns and leave alike workbenches. -/
lemma Alike.realize (h : w.Alike offsets w') {recipe recipe' : Recipe}
    (hr : recipe.Alike offsets Eq recipe') :
    Except.Both (fun r r' => Keeper.Alike offsets r.1 r'.1 ∧ Alike offsets r.2 r'.2)
      (w.realize recipe) (w'.realize recipe') := by
  have realized := Supply.realize_both (fun name => h.patterns.get? name) hr h.supply
  exact realized.bind fun _ _ hk => .ok ⟨hk.1, { h with supply := hk.2 }⟩

/-- Both shelves have nothing under a name, or related things. -/
lemma look_both {α β : Type} {R : α → β → Prop} {s : Shelf α} {s' : Shelf β} (h : s.Alike R s')
    (name : String) : Except.Both R (look s name) (look s' name) := by
  have rel := h.get? name
  rw [look, look]
  generalize s.get? name = a at rel ⊢
  generalize s'.get? name = b at rel ⊢
  cases rel with
  | none => exact .error _
  | some h => exact .ok h

/-- Mistakes are taken over as they are. -/
lemma checked_both {α β : Type} {R : α → β → Prop} {r : Except GrammarError α}
    {r' : Except GrammarError β} (h : Except.Both R r r') :
    Except.Both R (checked r) (checked r') := by
  cases h with
  | ok h => exact .ok h
  | error e => exact .error _

/-- Keeping alike recipes is alike. -/
lemma Alike.both_keep (h : w.Alike offsets w') (pattern : String) {recipe recipe' : Recipe}
    (hr : recipe.Alike offsets Eq recipe') :
    Except.Both (fun r r' => Alike offsets r.2 r'.2) (w.attempt (.keep pattern recipe))
      (w'.attempt (.keep pattern recipe')) :=
  (h.realize hr).bind fun _ _ hk => .ok (hk.2.putPattern pattern hk.1)

/-- So is defining a rule by them. -/
lemma Alike.both_define (h : w.Alike offsets w') (builder handle : String)
    {recipe recipe' : Recipe} (hr : recipe.Alike offsets Eq recipe') :
    Except.Both (fun r r' => Alike offsets r.2 r'.2) (w.attempt (.define builder handle recipe))
      (w'.attempt (.define builder handle recipe')) := by
  rw [attempt, attempt, h.builders, h.handles]
  refine Except.both_bind fun b => Except.both_bind fun rule => (h.realize hr).bind fun _ _ hk => ?_
  refine (checked_both (hk.2.supply.store.define b rule hk.1)).bind fun _ _ hs => ?_
  exact .ok { hk.2 with supply := ⟨hs, hk.2.supply.texts⟩ }

/-- A step that is the same on alike workbenches fails on both or leaves them alike. -/
lemma Alike.both_same (h : w.Alike offsets w') (s : Step) :
    Except.Both (fun r r' => Alike offsets r.2 r'.2) (w.attempt s) (w'.attempt s) := by
  obtain ⟨⟨store, texts⟩, builders, grammars, handles, patterns⟩ := w
  obtain ⟨⟨store', texts'⟩, _, _, _, patterns'⟩ := w'
  obtain ⟨⟨hs, ht⟩, rfl, rfl, rfl, hp⟩ := h
  cases s with
  | keep pattern recipe =>
    exact both_keep ⟨⟨hs, ht⟩, rfl, rfl, rfl, hp⟩ pattern (.refl offsets recipe)
  | define builder handle recipe =>
    exact both_define ⟨⟨hs, ht⟩, rfl, rfl, rfl, hp⟩ builder handle (.refl offsets recipe)
  | builder name =>
    obtain ⟨hb, hn⟩ := hs.newBuilder
    exact .ok ⟨⟨hn, ht⟩, congrArg (builders.put name) hb, rfl, rfl, hp⟩
  | declare builder handle ruleName =>
    refine Except.both_bind fun b => ?_
    obtain ⟨hr, hd⟩ := hs.declare b ruleName
    exact .ok ⟨⟨hd, ht⟩, rfl, rfl, congrArg (handles.put handle) hr, hp⟩
  | reference builder handle pattern =>
    rw [attempt, attempt]
    refine Except.both_bind fun b => Except.both_bind fun rule => ?_
    simp only [hs.reference]
    refine Except.both_bind fun p => ?_
    exact .ok ⟨⟨hs, ht⟩, rfl, rfl, rfl, hp.put pattern (.ofPattern (.refl offsets p))⟩
  | build builder grammar =>
    refine Except.both_bind fun b => ?_
    simp only [hs.build]
    exact Except.both_bind fun g => .ok ⟨⟨hs, ht⟩, rfl, rfl, rfl, hp⟩
  | rule grammar handle pattern =>
    refine Except.both_bind fun g => Except.both_bind fun rule => ?_
    simp only [hs.rule]
    refine Except.both_bind fun p => ?_
    exact .ok ⟨⟨hs, ht⟩, rfl, rfl, rfl, hp.put pattern (.ofPattern (.refl offsets p))⟩
  | clone grammar copy => exact Except.both_bind fun g => .ok ⟨⟨hs, ht⟩, rfl, rfl, rfl, hp⟩
  | showBuilder builder => exact Except.both_bind fun b => .ok ⟨⟨hs, ht⟩, rfl, rfl, rfl, hp⟩
  | showGrammar grammar => exact Except.both_bind fun g => .ok ⟨⟨hs, ht⟩, rfl, rfl, rfl, hp⟩
  | drop kind name =>
    cases kind with
    | builder => exact .ok ⟨⟨hs, ht⟩, rfl, rfl, rfl, hp⟩
    | grammar => exact .ok ⟨⟨hs, ht⟩, rfl, rfl, rfl, hp⟩
    | pattern => exact .ok ⟨⟨hs, ht⟩, rfl, rfl, rfl, hp.erase name⟩
  | parse pattern text =>
    exact (look_both hp pattern).bind fun _ _ _ => .ok ⟨⟨hs, ht⟩, rfl, rfl, rfl, hp⟩

/-- Alike steps fail for the same reason, or leave alike workbenches. -/
lemma Alike.both_attempt (h : w.Alike offsets w') {s s' : Step} (hs : s.Alike offsets s') :
    Except.Both (fun r r' => Alike offsets r.2 r'.2) (w.attempt s) (w'.attempt s') := by
  cases hs with
  | keep pattern hr => exact h.both_keep pattern hr
  | define builder handle hr => exact h.both_define builder handle hr
  | same s => exact h.both_same s

/-- Alike workbenches are left also where a step has failed. -/
lemma Alike.afterFault (h : w.Alike offsets w') {s s' : Step} (hs : s.Alike offsets s') :
    (w.afterFault s).Alike offsets (w'.afterFault s') := by
  cases hs with
  | keep pattern _ => exact h
  | define builder handle _ => exact h
  | same s =>
    cases s with
    | build builder grammar => exact { h with builders := congrArg (·.erase builder) h.builders }
    | _ => exact h

/-- So they are in any case. -/
lemma Alike.step (h : w.Alike offsets w') {s s' : Step} (hs : s.Alike offsets s') :
    (w.step s).2.Alike offsets (w'.step s').2 := by
  have both := h.both_attempt hs
  rw [Workbench.step, Workbench.step]
  generalize w.attempt s = r at both ⊢
  generalize w'.attempt s' = r' at both ⊢
  cases both with
  | ok ha => exact ha
  | error fault => exact h.afterFault hs

/-- Alike steps, one after the other, leave alike workbenches alike. -/
theorem Alike.run (h : w.Alike offsets w') {steps steps' : List Step}
    (hs : List.Forall₂ (Step.Alike offsets) steps steps') :
    (w.run steps).2.Alike offsets (w'.run steps').2 := by
  induction hs generalizing w w' with
  | nil => exact h
  | cons hs _ ih => exact ih (h.step hs)

/-- An empty workbench is like itself. -/
lemma alike_empty : empty.Alike offsets empty :=
  ⟨⟨.nil, rfl⟩, rfl, rfl, rfl, .nil⟩

/-- Steps are alike from either side. -/
lemma Step.Alike.symm {s s' : Step} (h : s.Alike offsets s') : s'.Alike offsets s := by
  have flip {recipe recipe' : Recipe} (h : recipe.Alike offsets Eq recipe') :
      recipe'.Alike offsets Eq recipe := by
    have flipped := h.symm
    simp only [eq_comm] at flipped
    exact flipped
  cases h with
  | keep pattern h => exact .keep pattern (flip h)
  | define builder handle h => exact .define builder handle (flip h)
  | same s => exact .same s

/-- The pattern kept under a name answers the input by this outcome. -/
def Replies (w : Workbench) (name : String) (input : Slice) (o : Outcome) : Prop :=
  ∃ keeper, w.patterns.get? name = some keeper ∧
    (Goal.apply keeper.pattern input).Yields w.scope.definitions o

/-- A pattern has one reply. -/
lemma Replies.unique {name : String} {input : Slice} {o o' : Outcome} (h : w.Replies name input o)
    (h' : w.Replies name input o') : o = o' := by
  obtain ⟨keeper, hk, ho⟩ := h
  obtain ⟨keeper', hk', ho'⟩ := h'
  rw [hk] at hk'
  cases hk'
  exact ho.unique ho'

/-- Alike workbenches reply alike. -/
lemma Alike.exists_replies (h : w.Alike offsets w') {name : String} {input : Slice} {o : Outcome}
    (ho : w.Replies name input o) : ∃ o', w'.Replies name input o' ∧ o.Alike offsets o' := by
  obtain ⟨keeper, hk, ho⟩ := ho
  have rel := h.patterns.get? name
  rw [hk] at rel
  generalize hk' : w'.patterns.get? name = k' at rel
  cases rel with
  | @some _ keeper' alike =>
    have hd (link link' : Link) (e : link = link') : Resolution.Alike offsets Eq
        (w.scope.definitions link) (w'.scope.definitions link') := e ▸ h.scope link
    obtain ⟨o', ho', alike'⟩ := ho.alike hd (.apply input alike.pattern)
    exact ⟨o', ⟨keeper', hk', ho'⟩, alike'⟩

/-- What matches on one of two alike workbenches matches on the other, with the same parts. -/
lemma Alike.replies_matched (h : w.Alike offsets w') {name : String}
    {input consumed remainder : Slice} (hr : w.Replies name input (.matched consumed remainder)) :
    w'.Replies name input (.matched consumed remainder) := by
  obtain ⟨o', ho', alike⟩ := h.exists_replies hr
  cases alike with
  | matched consumed remainder => exact ho'

/-- What is rejected on one is rejected on the other, at the same offset if offsets are kept. -/
lemma Alike.exists_replies_rejected (h : w.Alike offsets w') {name : String} {input : Slice}
    {e : Rejection} (hr : w.Replies name input (.rejected e)) :
    ∃ e', w'.Replies name input (.rejected e') ∧ (offsets → e.offset = e'.offset) := by
  obtain ⟨o', ho', alike⟩ := h.exists_replies hr
  cases alike with
  | rejected he => exact ⟨_, ho', he⟩

/-- Let steps differ only in labels, in contexts and in what is said by patterns that reject
everything. What they keep under a name matches the same inputs, with the same slices, and rejects
the same inputs. If the patterns that reject everything do so at the same offsets, as they do when
only labels and contexts differ, all rejections lie at the same offsets. -/
theorem recognition_of_alike {steps steps' : List Step}
    (hs : List.Forall₂ (Step.Alike offsets) steps steps') (name : String) (input : Slice) :
    (∀ consumed remainder,
      (empty.run steps).2.Replies name input (.matched consumed remainder) ↔
        (empty.run steps').2.Replies name input (.matched consumed remainder)) ∧
    ((∃ e, (empty.run steps).2.Replies name input (.rejected e)) ↔
      ∃ e, (empty.run steps').2.Replies name input (.rejected e)) ∧
    (offsets → ∀ e e', (empty.run steps).2.Replies name input (.rejected e) →
      (empty.run steps').2.Replies name input (.rejected e') → e.offset = e'.offset) := by
  have forth : (empty.run steps).2.Alike offsets (empty.run steps').2 := alike_empty.run hs
  have back : (empty.run steps').2.Alike offsets (empty.run steps).2 :=
    alike_empty.run (hs.imp fun _ _ h => h.symm).flip
  refine ⟨fun consumed remainder => ⟨forth.replies_matched, back.replies_matched⟩, ⟨?_, ?_⟩, ?_⟩
  · rintro ⟨e, he⟩
    obtain ⟨e', he', _⟩ := forth.exists_replies_rejected he
    exact ⟨e', he'⟩
  · rintro ⟨e, he⟩
    obtain ⟨e', he', _⟩ := back.exists_replies_rejected he
    exact ⟨e', he'⟩
  · intro ho e e' he he'
    obtain ⟨e'', he'', offset⟩ := forth.exists_replies_rejected he
    cases he'.unique he''
    exact offset ho

/-- A rule for nested parentheses and what it says of an input elsewhere, in the words of `wording`
or on its own. -/
def wordedSteps (wording : Recipe → Recipe) (why : Slice → Rejection) : List Step :=
  [.builder "b", .declare "b" "r" "nest", .reference "b" "r" "self",
    .define "b" "r" (wording (.firstOf
      [.concat [.char '(', .optional (.refer (.kept "self")), .char ')'],
        .custom fun input => .rejected (why input)])),
    .build "b" "g", .rule "g" "r" "p"]

/-- The steps are alike whatever is worded in them, and whatever the leaf says. -/
lemma alike_wordedSteps {wording wording' : Recipe → Recipe}
    (hw : ∀ recipe recipe' : Recipe, recipe.Alike offsets Eq recipe' →
      (wording recipe).Alike offsets Eq (wording' recipe'))
    {why why' : Slice → Rejection}
    (he : offsets → ∀ input, (why input).offset = (why' input).offset) :
    List.Forall₂ (Step.Alike offsets) (wordedSteps wording why) (wordedSteps wording' why') := by
  have choices : List.Forall₂ (Pattern.Alike offsets Eq)
      [.concat [.char '(', .optional (.refer (.kept "self")), .char ')'],
        .custom fun input => .rejected (why input)]
      [.concat [.char '(', .optional (.refer (Ingredient.kept "self")), .char ')'],
        .custom fun input => .rejected (why' input)] :=
    .cons (.refl offsets _) (.cons (.reject he) .nil)
  have define := Step.Alike.define "b" "r" (hw _ _ (.firstOf_of_forall₂ choices))
  exact .cons (.same _) (.cons (.same _) (.cons (.same _)
    (.cons define (.cons (.same _) (.cons (.same _) .nil)))))

/-- Two levels of parentheses are matched in either wording, and an opening parenthesis alone is
rejected at its end, also where the text that is rejected is named. -/
theorem recognition_of_alike_nesting :
    List.Forall₂ (Step.Alike True) (wordedSteps id fun _ => { cause := .mismatch })
      (wordedSteps (.label · "a nest") fun input => { cause := .stated input.toString }) ∧
    (empty.run (wordedSteps (.label · "a nest")
      fun input => { cause := .stated input.toString })).2.Replies "p"
      (.ofString 0 "(())x") (.matched ⟨0, 0, 4, "(())x".toList⟩ ⟨0, 4, 1, ['x']⟩) ∧
    ∃ e, (empty.run (wordedSteps (.label · "a nest")
      fun input => { cause := .stated input.toString })).2.Replies "p"
      (.ofString 0 "(") (.rejected e) ∧ e.offset = 1 := by
  have steps : List.Forall₂ (Step.Alike True) (wordedSteps id fun _ => { cause := .mismatch })
      (wordedSteps (.label · "a nest") fun input => { cause := .stated input.toString }) :=
    alike_wordedSteps (fun _ _ h => .label_right _ h) fun _ _ => rfl
  have nested : (empty.run (wordedSteps id fun _ => { cause := .mismatch })).2.Replies "p"
      (.ofString 0 "(())x") (.matched ⟨0, 0, 4, "(())x".toList⟩ ⟨0, 4, 1, ['x']⟩) :=
    ⟨.ofPattern (.refer (.strong ⟨0, 0⟩)), rfl, 30, by decide +kernel⟩
  have opened : (empty.run (wordedSteps id fun _ => { cause := .mismatch })).2.Replies "p"
      (.ofString 0 "(") (.rejected { cause := .noInput, offset := 1 }) :=
    ⟨.ofPattern (.refer (.strong ⟨0, 0⟩)), rfl, 30, by decide +kernel⟩
  obtain ⟨e, he⟩ := (recognition_of_alike steps "p" _).2.1.1 ⟨_, opened⟩
  exact ⟨steps, ((recognition_of_alike steps "p" _).1 _ _).1 nested, e, he,
    ((recognition_of_alike steps "p" _).2.2 trivial _ _ opened he).symm⟩

end Workbench

end Recognizer
