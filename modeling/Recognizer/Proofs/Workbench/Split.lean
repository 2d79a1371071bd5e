import Recognizer.Proofs.Pattern.Causes
import Recognizer.Proofs.Workbench.Shelves
import Recognizer.Proofs.Workbench.Steps

/-!
# Matches split the input

Whatever is built on a workbench from regular recipes, in whatever state its builders and grammars
are, every match of a pattern on it is a split of the input (`Workbench.splits_of_yields`), and
every rejection lies between two characters of it or at one of its ends
(`Workbench.boundary_of_rejected`). Each step keeps the workbench regular
(`Workbench.Regular.step`); the rest is `Pattern.RegularOver.cuts`.
-/

namespace Recognizer

/-- No answers from texts of their own. -/
def Ingredient.Regular : Ingredient → Prop
  | kept _ | json _ _ => True
  | stray _ _ => False

/-- A recipe in terms of regular ingredients. -/
abbrev Recipe.Regular (recipe : Recipe) : Prop :=
  recipe.RegularOver Ingredient.Regular

namespace Workbench

/-- A step that brings in regular recipes only. -/
def Step.Regular : Step → Prop
  | keep _ recipe | define _ _ recipe => recipe.Regular
  | _ => True

/-- All definitions and all patterns that are kept are regular. -/
structure Regular (w : Workbench) : Prop where
  store : w.store.Regular
  patterns : ∀ name keeper, w.patterns.get? name = some keeper → keeper.pattern.Regular

variable {w : Workbench}

/-- There is nothing irregular on an empty workbench. -/
lemma regular_empty : empty.Regular where
  store := Store.regular_empty
  patterns _ _ h := nomatch h

/-- A regular pattern may be kept. -/
lemma Regular.putPattern (h : w.Regular) (name : String) {keeper : Keeper}
    (hk : keeper.pattern.Regular) :
    Regular { w with patterns := w.patterns.put name keeper } := by
  refine ⟨h.store, fun name' keeper' h' => ?_⟩
  obtain ⟨_, rfl⟩ | ⟨_, h'⟩ := Shelf.of_get?_put h'
  · exact hk
  · exact h.patterns name' keeper' h'

/-- So may anything be let go. -/
lemma Regular.drop (h : w.Regular) (name : String) (kind : Kind) :
    (w.drop name kind).2.Regular := by
  cases kind with
  | builder => exact ⟨h.store, h.patterns⟩
  | grammar => exact ⟨h.store, h.patterns⟩
  | pattern =>
    exact ⟨h.store, fun name' keeper' h' =>
      h.patterns name' keeper' (Shelf.of_get?_erase h').2⟩

/-- What a regular ingredient stands for is regular. -/
lemma Regular.prepare (h : w.Regular) {ingredient : Ingredient} (hi : ingredient.Regular)
    {supply supply' : Supply} {keeper : Keeper} (hs : supply.store.Regular)
    (hp : Supply.prepare w.patterns.get? ingredient supply = .ok (keeper, supply')) :
    keeper.pattern.Regular ∧ supply'.store.Regular := by
  cases ingredient with
  | kept name =>
    simp only [Supply.prepare] at hp
    split at hp
    · next keeper' hk =>
      cases hp
      exact ⟨h.patterns name _ hk, hs⟩
    · cases hp
  | json entry options =>
    simp only [Supply.prepare] at hp
    split at hp
    · next m hm =>
      cases hp
      exact Json.Entry.regular_prepare hs hm
    · cases hp
  | stray consumed remainder => exact hi.elim

/-- A regular recipe makes a regular pattern and leaves the store regular. -/
lemma Regular.realize (h : w.Regular) {recipe : Recipe} (hr : recipe.Regular) {keeper : Keeper}
    {supply : Supply} (hk : w.toSupply.realize w.patterns.get? recipe = .ok (keeper, supply)) :
    keeper.pattern.Regular ∧ supply.store.Regular := by
  obtain ⟨⟨p, supply'⟩, hm, hk⟩ := Except.bind_ok hk
  cases hk
  have prepare (ingredient : Ingredient) (hi : ingredient.Regular) :
      Maintains (fun s : Supply => s.store.Regular)
        (Supply.prepare w.patterns.get? ingredient) fun keeper => keeper.pattern.Regular := by
    intro s keeper s' hs hp
    exact h.prepare hi hs hp
  obtain ⟨regular, store⟩ := hr.mapM prepare _ _ _ h.store hm
  exact ⟨regular.bind fun _ hk => hk, store⟩

/-- A step that succeeds leaves the workbench regular. -/
lemma Regular.does (h : w.Regular) {s : Step} (hs : s.Regular) {answer : Answer} {w' : Workbench}
    (hd : w.Does s answer w') : w'.Regular := by
  cases hd with
  | builder name => exact ⟨h.store.newBuilder, h.patterns⟩
  | @declare _ _ ruleName b _ => exact ⟨h.store.declare b ruleName, h.patterns⟩
  | reference _ _ _ => exact h.putPattern _ (.refer trivial)
  | keep hk =>
    obtain ⟨regular, store⟩ := h.realize hs hk
    have stored : Regular { w with toSupply := _ } := ⟨store, h.patterns⟩
    exact stored.putPattern _ regular
  | define _ _ hk hd =>
    obtain ⟨regular, store⟩ := h.realize hs hk
    exact ⟨store.define regular hd, h.patterns⟩
  | build _ _ => exact ⟨h.store, h.patterns⟩
  | rule _ _ _ => exact h.putPattern _ (.refer trivial)
  | clone _ => exact ⟨h.store, h.patterns⟩
  | showBuilder _ => exact h
  | showGrammar _ => exact h
  | drop kind name => exact h.drop name kind
  | parse _ => exact h

/-- Every step leaves the workbench regular, also one that fails. -/
lemma Regular.step (h : w.Regular) {s : Step} (hs : s.Regular) : (w.step s).2.Regular :=
  step_preserves h (fun hd => h.does hs hd) fun _ => ⟨h.store, h.patterns⟩

/-- So does every sequence of steps. -/
lemma Regular.run (h : w.Regular) {steps : List Step} (hs : ∀ s ∈ steps, s.Regular) :
    (w.run steps).2.Regular := by
  induction steps generalizing w with
  | nil => exact h
  | cons s steps ih =>
    rw [List.forall_mem_cons] at hs
    exact ih (h.step hs.1) hs.2

/-- What a pattern on a regular workbench answers cuts its input. -/
lemma Regular.cuts (h : w.Regular) {name : String} {keeper : Keeper}
    (hk : w.patterns.get? name = some keeper) {input : Slice} {o : Outcome}
    (ho : (Goal.apply keeper.pattern input).Yields w.scope.definitions o) : o.Cuts input := by
  have regular : keeper.pattern.Regular := h.patterns name keeper hk
  exact regular.cuts (fun _ _ hd => Store.Regular.definitions h.store hd) ho

open Text in
/-- In every state that steps with regular recipes lead to, a match of a kept pattern is a split of
the input, and no rejection is about a foreign remainder: one that is worded so was worded by a
label. -/
theorem splits_of_yields {steps : List Step} (hs : ∀ s ∈ steps, s.Regular) {name : String}
    {keeper : Keeper} (hk : (empty.run steps).2.patterns.get? name = some keeper) {input : Slice}
    {cs : List Char} (hi : input.Spells cs) {o : Outcome}
    (ho : (Goal.apply keeper.pattern input).Yields (empty.run steps).2.scope.definitions o) :
    (∀ consumed remainder, o = .matched consumed remainder →
      ∃ as bs, cs = as ++ bs ∧ consumed.Spells as ∧ remainder.Spells bs ∧
        input.EndsWith remainder ∧ input.before? remainder = some consumed ∧
        o.length? input = some (byteLength as)) ∧
    ∀ e, o = .rejected e → e.cause ≠ .foreignRemainder ∧
      (e.message = "remainder is not a suffix of the input" → e.cause = .stated e.message) := by
  have cuts : o.Cuts input := (regular_empty.run hs).cuts hk ho
  constructor
  · rintro consumed remainder rfl
    have hc : input.splitAt? consumed.size = some (consumed, remainder) := cuts
    obtain ⟨as, bs, rfl, hl, ht, hr⟩ := hi.of_splitAt? hc
    have progress := Slice.progress_of_splitAt? hc
    refine ⟨as, bs, rfl, ht, hr, cuts.hasTail.endsWith, ?_, ?_⟩
    · exact cuts.hasTail.before?_eq hc
    · show some (input.progress remainder) = _
      rw [progress, hl]
  · rintro e rfl
    refine ⟨cuts.1, fun he => ?_⟩
    rcases Cause.eq_of_message_eq he with hc | hc
    · exact absurd hc cuts.1
    · exact hc

/-- A rule for nested parentheses that reaches itself by a weak reference, and is kept when its
grammar has been let go. -/
def nestingSteps : List Step :=
  [.builder "b", .declare "b" "r" "nest", .reference "b" "r" "self",
    .define "b" "r" (.concat [.char '(', .optional (.refer (.kept "self")), .char ')']),
    .build "b" "g", .rule "g" "r" "p", .drop .grammar "g", .drop .pattern "self"]

/-- None of the steps prepares anything but combinations. -/
lemma regular_nestingSteps : ∀ s ∈ nestingSteps, s.Regular := by
  simp only [nestingSteps, List.forall_mem_cons]
  refine ⟨trivial, trivial, trivial, .concat ?_, trivial, trivial, trivial, trivial, by simp⟩
  simp only [List.forall_mem_cons]
  exact ⟨.satisfy _, .optional (.refer trivial), .satisfy _, by simp⟩

/-- Two levels of it, and what is left behind them. -/
theorem splits_of_yields_nesting :
    (∀ s ∈ nestingSteps, s.Regular) ∧
    (Goal.apply (.refer (.strong ⟨0, 0⟩)) (.ofString 0 "(())x")).Yields
      (empty.run nestingSteps).2.scope.definitions
      (.matched ⟨0, 0, 4, "(())x".toList⟩ ⟨0, 4, 1, ['x']⟩) ∧
    ∃ as bs, "(())x".toList = as ++ bs ∧ Slice.Spells ⟨0, 0, 4, "(())x".toList⟩ as ∧
      Slice.Spells ⟨0, 4, 1, ['x']⟩ bs := by
  have yields : (Goal.apply (.refer (.strong ⟨0, 0⟩)) (.ofString 0 "(())x")).Yields
      (empty.run nestingSteps).2.scope.definitions
      (.matched ⟨0, 0, 4, "(())x".toList⟩ ⟨0, 4, 1, ['x']⟩) := ⟨12, by decide +kernel⟩
  have split := splits_of_yields regular_nestingSteps
    (show (empty.run nestingSteps).2.patterns.get? "p" = some (.ofPattern (.refer (.strong ⟨0, 0⟩)))
      from rfl) (Slice.spells_whole 0 "(())x".toList) yields
  obtain ⟨as, bs, e, hc, hr, _⟩ := split.1 _ _ rfl
  exact ⟨regular_nestingSteps, yields, as, bs, e, hc, hr⟩

open Text in
/-- In every state that steps with regular recipes lead to, the offset of a rejection by a kept
pattern is the number of bytes of a leading part of the input: it is not beyond the end, and not
within a character. -/
theorem boundary_of_rejected {steps : List Step} (hs : ∀ s ∈ steps, s.Regular) {name : String}
    {keeper : Keeper} (hk : (empty.run steps).2.patterns.get? name = some keeper) {input : Slice}
    {cs : List Char} (hi : input.Spells cs) {e : Rejection}
    (ho : (Goal.apply keeper.pattern input).Yields (empty.run steps).2.scope.definitions
      (.rejected e)) :
    e.offset ≤ byteLength cs ∧ ∃ as bs, cs = as ++ bs ∧ byteLength as = e.offset := by
  obtain ⟨_, cut⟩ := (regular_empty.run hs).cuts hk ho
  obtain ⟨⟨taken, rest⟩, cut⟩ := Option.isSome_iff_exists.1 cut
  obtain ⟨as, bs, rfl, length, _, _⟩ := hi.of_splitAt? cut
  refine ⟨?_, as, bs, rfl, length⟩
  rw [byteLength_append, ← length]
  exact Nat.le_add_right _ _

/-- A rule for two-byte openings and one-byte closings that reaches itself by a weak reference. -/
def accentSteps : List Step :=
  [.builder "b", .declare "b" "r" "accents", .reference "b" "r" "self",
    .define "b" "r" (.concat [.char 'é', .optional (.refer (.kept "self")), .char 'x']),
    .build "b" "g", .rule "g" "r" "p"]

/-- The same for these. -/
lemma regular_accentSteps : ∀ s ∈ accentSteps, s.Regular := by
  simp only [accentSteps, List.forall_mem_cons]
  refine ⟨trivial, trivial, trivial, .concat ?_, trivial, trivial, by simp⟩
  simp only [List.forall_mem_cons]
  exact ⟨.satisfy _, .optional (.refer trivial), .satisfy _, by simp⟩

/-- The outer of two levels is not closed: it rejects behind the five bytes of the first opening
and of the level within. -/
theorem boundary_of_rejected_accents :
    (∀ s ∈ accentSteps, s.Regular) ∧
    (Goal.apply (.refer (.strong ⟨0, 0⟩)) (.ofString 0 "ééxy")).Yields
      (empty.run accentSteps).2.scope.definitions (.rejected { cause := .mismatch, offset := 5 }) ∧
    ∃ as bs, "ééxy".toList = as ++ bs ∧ Text.byteLength as = 5 := by
  have yields : (Goal.apply (.refer (.strong ⟨0, 0⟩)) (.ofString 0 "ééxy")).Yields
      (empty.run accentSteps).2.scope.definitions (.rejected { cause := .mismatch, offset := 5 }) :=
    ⟨12, by decide +kernel⟩
  have boundary := boundary_of_rejected regular_accentSteps
    (show (empty.run accentSteps).2.patterns.get? "p" = some (.ofPattern (.refer (.strong ⟨0, 0⟩)))
      from rfl) (Slice.spells_whole 0 "ééxy".toList) yields
  exact ⟨regular_accentSteps, yields, boundary.2⟩

end Workbench

end Recognizer
