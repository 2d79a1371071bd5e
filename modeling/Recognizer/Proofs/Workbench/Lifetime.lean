import Recognizer.Proofs.Pattern.Yields
import Recognizer.Proofs.Workbench.Links

/-!
# How long rules can be referred to

A table of rules is held while a chain of strong links leads to it from a builder, a grammar or a
pattern on the workbench (`Workbench.Held`). A reference to one of its rules then answers as the
definition does, and all of them are refused as soon as the table is not held. It never is again,
since strong links come from what is held already (`Workbench.lifetimes`).
-/

namespace Recognizer

/-- A reference answers as what its link leads to. -/
lemma Goal.yields_refer_iff {ρ : Type} {definitions : ρ → Resolution ρ} {rule : ρ} {input : Slice}
    {o : Outcome} : (Goal.apply (.refer rule) input).Yields definitions o ↔
      match definitions rule with
      | .defined p => (Goal.apply p input).Yields definitions o
      | .undefined name => .refuse (.undefinedRule name) = o
      | .dropped => .refuse .grammarDropped = o := by
  rw [Goal.yields_iff]
  show (Goal.resolve rule input).Yields definitions o ↔ _
  rw [Goal.yields_iff, Goal.plan]
  cases definitions rule <;> exact Iff.rfl

namespace Workbench

variable {w w' : Workbench} {table : Nat} {rule : RuleId} {slot : Slot} {keeper : Keeper}

/-- The table is kept by a builder, a grammar or a strong link of a pattern, or by a strong link in
the definition of a rule whose table is held. -/
inductive Held (w : Workbench) : Nat → Prop where
  | builder {name : String} {b : Builder} : w.builders.get? name = some b → Held w b.table
  | grammar {name : String} {g : Grammar} : w.grammars.get? name = some g → Held w g.table
  | pattern {rule : RuleId} : w.Offers (.strong rule) → Held w rule.table
  | definition {place rule : RuleId} {keeper : Keeper} : Held w place.table →
    w.store.Defines place keeper → .strong rule ∈ keeper.pattern.references → Held w rule.table

/-- The roots are the tables of builders, of grammars and of strong links of patterns. -/
lemma mem_roots_iff (h : w.Sound) : table ∈ w.roots ↔
    (∃ name b, w.builders.get? name = some b ∧ b.table = table) ∨
      (∃ name g, w.grammars.get? name = some g ∧ g.table = table) ∨
      ∃ rule, w.Offers (.strong rule) ∧ rule.table = table := by
  obtain ⟨builders, grammars, patterns⟩ := h.tidy
  rw [roots, List.mem_append, List.mem_append, or_assoc, List.mem_map, List.mem_map,
    List.mem_flatMap]
  refine or_congr ?_ (or_congr ?_ ?_)
  · simp only [builders.mem_values_iff, ← exists_and_right]
    exact exists_comm
  · simp only [grammars.mem_values_iff, ← exists_and_right]
    exact exists_comm
  · simp only [patterns.mem_values_iff, Keeper.mem_tables, Pattern.mem_keeps, Offers]
    constructor
    · rintro ⟨keeper, ⟨name, hk⟩, rule, hl, ht⟩
      exact ⟨rule, ⟨name, keeper, hk, hl⟩, ht⟩
    · rintro ⟨rule, ⟨name, keeper, hk, hl⟩, ht⟩
      exact ⟨keeper, ⟨name, hk⟩, rule, hl, ht⟩

/-- The tables in scope are the held ones. -/
lemma mem_held_iff (h : w.Sound) : table ∈ w.scope.held ↔ w.Held table := by
  rw [scope, Scope.ofRoots, Store.mem_heldFrom]
  constructor
  · intro held
    induction held with
    | root ht =>
      obtain ⟨_, b, hb, rfl⟩ | ⟨_, g, hg, rfl⟩ | ⟨rule, hl, rfl⟩ := (mem_roots_iff h).1 ht
      · exact .builder hb
      · exact .grammar hg
      · exact .pattern hl
    | kept _ ht ih =>
      obtain ⟨place, keeper, rule, hk, rfl, hl, rfl⟩ := Store.mem_keptBy_iff.1 ht
      exact .definition ih hk hl
  · intro held
    induction held with
    | builder hb => exact .root ((mem_roots_iff h).2 (.inl ⟨_, _, hb, rfl⟩))
    | grammar hg => exact .root ((mem_roots_iff h).2 (.inr (.inl ⟨_, _, hg, rfl⟩)))
    | pattern hl => exact .root ((mem_roots_iff h).2 (.inr (.inr ⟨_, hl, rfl⟩)))
    | definition _ hk hl ih =>
      exact .kept ih (Store.mem_keptBy_iff.2 ⟨_, _, _, hk, rfl, hl, rfl⟩)

/-- What a reference leads to: what the slot has, if its table is held. -/
lemma definitions_weak (h : w.Sound) (hs : w.store.slot? rule = some slot)
    (held : w.Held rule.table) : w.scope.definitions (.weak rule) =
      match slot.definition? with
      | some keeper => .defined keeper.pattern
      | none => .undefined slot.name := by
  have mem : rule.table ∈ w.scope.held := (mem_held_iff h).2 held
  have found : w.scope.store.slot? rule = some slot := hs
  obtain ⟨name, definition?⟩ := slot
  rw [Scope.definitions, Link.rule, if_pos mem, found]
  cases definition? <;> rfl

/-- A reference into a table that is not held leads nowhere. -/
lemma definitions_weak_of_not_held (h : w.Sound) (held : ¬ w.Held rule.table) :
    w.scope.definitions (.weak rule) = .dropped := by
  have absent : rule.table ∉ w.scope.held := fun mem => held ((mem_held_iff h).1 mem)
  rw [Scope.definitions, Link.rule, if_neg absent]

/-- And only such a reference does. -/
lemma definitions_weak_eq_dropped_iff (h : w.Sound) (hs : w.store.slot? rule = some slot) :
    w.scope.definitions (.weak rule) = .dropped ↔ ¬ w.Held rule.table := by
  refine ⟨fun dropped held => ?_, definitions_weak_of_not_held h⟩
  rw [definitions_weak h hs held] at dropped
  cases hk : slot.definition? <;> simp [hk] at dropped

/-- A table that is held after a step and existed before was held before. -/
lemma Does.held_before {s : Step} {answer : Answer} (hd : Does w s answer w')
    (held : w'.Held table) (lt : table < w.store.tables.length) : w.Held table := by
  -- A new strong link leads to what has been held, or into a table that has just been added.
  have origin {rule : RuleId} (ho : Origin w w' (.strong rule))
      (lt : rule.table < w.store.tables.length) : w.Held rule.table := by
    cases ho with
    | kept hl => exact .pattern hl
    | grammar hg same _ => exact same ▸ .grammar hg
    | added le _ => exact absurd lt (Nat.not_lt.2 le)
  induction held with
  | builder hb =>
    obtain hb | ⟨new, _⟩ := hd.builder_cases hb
    · exact .builder hb
    · exact absurd lt (new ▸ Nat.lt_irrefl _)
  | grammar hg =>
    obtain ⟨_, hg⟩ | ⟨_, b, hb, same, _⟩ := hd.grammar_cases hg
    · exact .grammar hg
    · exact same ▸ .builder hb
  | pattern hl => exact origin (hd.origin_of_offers hl) lt
  | definition held hk hl ih =>
    obtain hk | ⟨_, weak⟩ | ⟨_, sources⟩ := hd.defines_cases hk
    · obtain ⟨slot, hs, hdef⟩ := hk
      exact .definition (ih (Store.lt_length_of_slot? hs)) ⟨slot, hs, hdef⟩ hl
    · obtain ⟨_, strong, _⟩ := weak _ hl
      cases strong
    · exact origin (sources _ hl) lt

/-- Letting go of a builder makes no table held. -/
lemma Held.of_eraseBuilder {builder : String}
    (h : Held { w with builders := w.builders.erase builder } table) : w.Held table := by
  induction h with
  | builder hb => exact .builder (Shelf.of_get?_erase hb).2
  | grammar hg => exact .grammar hg
  | pattern hl => exact .pattern hl
  | definition _ hk hl ih => exact .definition ih hk hl

/-- A table that is not held is not held after any number of steps. -/
lemma Sound.not_held_run (h : w.Sound) (lt : table < w.store.tables.length)
    (held : ¬ w.Held table) (steps : List Step) : ¬ (w.run steps).2.Held table := by
  have gone : (w.run steps).2.Sound ∧ table < (w.run steps).2.store.tables.length ∧
      ¬ (w.run steps).2.Held table := by
    refine run_preserves (P := fun w => w.Sound ∧ table < w.store.tables.length ∧ ¬ w.Held table)
      ?_ ?_ ⟨h, lt, held⟩ steps
    · rintro w s answer w' ⟨h, lt, held⟩ hd
      exact ⟨h.does hd, Nat.lt_of_lt_of_le lt hd.length_le, fun held' =>
        held (hd.held_before held' lt)⟩
    · rintro w builder ⟨h, lt, held⟩
      exact ⟨h.eraseBuilder builder, lt, fun held' => held held'.of_eraseBuilder⟩
  exact gone.2.2

/-- A reference to the rule answers every input by one and the same rejection, in these words. -/
def RefusedWith (w : Workbench) (message : String) (rule : RuleId) : Prop :=
  ∃ e : Rejection, e.message = message ∧ e.offset = 0 ∧ ∀ input o,
    (Goal.apply (.refer (.weak rule)) input).Yields w.scope.definitions o ↔ o = .rejected e

/-- What references to rules keep and answer, and when their tables are held. -/
structure Lifetimes (w : Workbench) : Prop where
  /-- The pattern that a builder gives for a rule is a weak link to it and keeps no table. -/
  reference : ∀ builder handle pattern answer,
    (w.step (.reference builder handle pattern)).1 = .ok answer →
      ∃ rule keeper, w.handles.get? handle = some rule ∧
        (w.step (.reference builder handle pattern)).2.patterns.get? pattern = some keeper ∧
        keeper.pattern = .refer (.weak rule.id) ∧ keeper.tables = []
  /-- The pattern that a grammar gives for a rule is a strong link to it and keeps its table. -/
  rule : ∀ grammar handle pattern answer,
    (w.step (.rule grammar handle pattern)).1 = .ok answer →
      ∃ rule keeper, w.handles.get? handle = some rule ∧
        (w.step (.rule grammar handle pattern)).2.patterns.get? pattern = some keeper ∧
        keeper.pattern = .refer (.strong rule.id) ∧ keeper.tables = [rule.id.table]
  /-- References lead to rules that have been declared. -/
  declared : ∀ rule, w.Offers (.weak rule) → ∃ slot, w.store.slot? rule = some slot
  /-- So do references in definitions. -/
  declared_in : ∀ place keeper rule, w.store.Defines place keeper →
    .weak rule ∈ keeper.pattern.references → ∃ slot, w.store.slot? rule = some slot
  /-- While the table is held, a reference answers as the definition. -/
  defined : ∀ rule keeper, w.Held rule.table → w.store.Defines rule keeper → ∀ input o,
    (Goal.apply (.refer (.weak rule)) input).Yields w.scope.definitions o ↔
      (Goal.apply keeper.pattern input).Yields w.scope.definitions o
  /-- Before there is a definition, the reference is refused. -/
  undefined : ∀ rule slot, w.Held rule.table → w.store.slot? rule = some slot →
    slot.definition? = none → w.RefusedWith ("rule `" ++ slot.name ++ "` is not defined") rule
  /-- And so it is when the table is not held. -/
  dropped : ∀ rule, ¬ w.Held rule.table →
    w.RefusedWith "rule referenced after its grammar was dropped" rule
  /-- Rules of one table become unavailable together. -/
  together : ∀ rule slot rule' slot', w.store.slot? rule = some slot →
    w.store.slot? rule' = some slot' → rule.table = rule'.table →
    (w.scope.definitions (.weak rule) = .dropped ↔ w.scope.definitions (.weak rule') = .dropped)
  /-- No table keeps itself, directly or through others. -/
  acyclic : ∀ table, ¬ Relation.TransGen (fun t t' => t' ∈ w.store.keptBy t) table table
  /-- A table that is not held is not held again. -/
  gone : ∀ table < w.store.tables.length, ¬ w.Held table →
    ∀ steps, ¬ (w.run steps).2.Held table

/-- A builder gives a weak link. -/
lemma weak_of_step_reference {builder handle pattern : String} {answer : Answer}
    (h : (w.step (.reference builder handle pattern)).1 = .ok answer) :
    ∃ rule keeper, w.handles.get? handle = some rule ∧
      (w.step (.reference builder handle pattern)).2.patterns.get? pattern = some keeper ∧
      keeper.pattern = .refer (.weak rule.id) ∧ keeper.tables = [] := by
  obtain ⟨_, w', hw, hd⟩ | ⟨fault, hw⟩ := w.step_cases (.reference builder handle pattern)
  · rw [hw]
    cases hd with
    | @reference _ _ _ b rule _ hr _ =>
      exact ⟨rule, _, hr, (Shelf.get?_put ..).trans (if_pos rfl), rfl, rfl⟩
  · rw [hw] at h
    cases h

/-- A grammar gives a strong link. -/
lemma strong_of_step_rule {grammar handle pattern : String} {answer : Answer}
    (h : (w.step (.rule grammar handle pattern)).1 = .ok answer) :
    ∃ rule keeper, w.handles.get? handle = some rule ∧
      (w.step (.rule grammar handle pattern)).2.patterns.get? pattern = some keeper ∧
      keeper.pattern = .refer (.strong rule.id) ∧ keeper.tables = [rule.id.table] := by
  obtain ⟨_, w', hw, hd⟩ | ⟨fault, hw⟩ := w.step_cases (.rule grammar handle pattern)
  · rw [hw]
    cases hd with
    | @rule _ _ _ g rule _ hr _ =>
      exact ⟨rule, _, hr, (Shelf.get?_put ..).trans (if_pos rfl), rfl, rfl⟩
  · rw [hw] at h
    cases h

/-- While its table is held, a reference to a rule without a definition names the rule. -/
lemma Sound.refusedWith_undefined (h : w.Sound) (held : w.Held rule.table)
    (hs : w.store.slot? rule = some slot) (hk : slot.definition? = none) :
    w.RefusedWith ("rule `" ++ slot.name ++ "` is not defined") rule := by
  refine ⟨{ cause := .undefinedRule slot.name }, rfl, rfl, fun input o => ?_⟩
  rw [Goal.yields_refer_iff, definitions_weak h hs held, hk]
  exact eq_comm

/-- A reference into a table that is not held is refused for that. -/
lemma Sound.refusedWith_dropped (h : w.Sound) (held : ¬ w.Held rule.table) :
    w.RefusedWith "rule referenced after its grammar was dropped" rule := by
  refine ⟨{ cause := .grammarDropped }, rfl, rfl, fun input o => ?_⟩
  rw [Goal.yields_refer_iff, definitions_weak_of_not_held h held]
  exact eq_comm

/-- In every state that steps lead to, a reference keeps no table and works while something else
holds the table of its rule, tables are not held in circles, and none is held again that has been
let go. -/
theorem lifetimes (steps : List Step) : (empty.run steps).2.Lifetimes := by
  have h : (empty.run steps).2.Sound := sound_empty.run steps
  exact {
    reference := fun _ _ _ _ done => weak_of_step_reference done
    rule := fun _ _ _ _ done => strong_of_step_rule done
    declared := fun rule hl => Option.isSome_iff_exists.1 (h.offered _ hl)
    declared_in := fun place keeper rule hk hl =>
      Option.isSome_iff_exists.1 (h.defined place keeper hk _ hl)
    defined := fun rule keeper held ⟨slot, hs, hk⟩ input o => by
      rw [Goal.yields_refer_iff, definitions_weak h hs held, hk]
    undefined := fun rule slot held hs hk => h.refusedWith_undefined held hs hk
    dropped := fun rule held => h.refusedWith_dropped held
    together := fun rule slot rule' slot' hs hs' same => by
      rw [definitions_weak_eq_dropped_iff h hs, definitions_weak_eq_dropped_iff h hs', same]
    acyclic := h.acyclic
    gone := fun table lt held steps => h.not_held_run lt held steps }

/-- A grammar of which only a pattern for its rule is left. -/
def remnantSteps : List Step :=
  [.builder "b", .declare "b" "r" "item", .reference "b" "r" "weak", .define "b" "r" (.char 'x'),
    .build "b" "g", .rule "g" "r" "strong", .drop .grammar "g"]

/-- The pattern for the rule is all that makes the reference work. When it is let go of, the
reference is refused, and so it is after any steps that follow. -/
theorem lifetimes_remnant :
    (Goal.apply (.refer (.weak ⟨0, 0⟩)) (.ofString 0 "xy")).Yields
      (empty.run remnantSteps).2.scope.definitions
      (.matched ⟨0, 0, 1, ['x', 'y']⟩ ⟨0, 1, 1, ['y']⟩) ∧
    (empty.run (remnantSteps ++ [.drop .pattern "strong"])).2.RefusedWith
      "rule referenced after its grammar was dropped" ⟨0, 0⟩ ∧
    ∀ steps, ¬ ((empty.run (remnantSteps ++ [.drop .pattern "strong"])).2.run steps).2.Held 0 := by
  have held : (empty.run remnantSteps).2.Held 0 :=
    @Held.pattern _ ⟨0, 0⟩ ⟨"strong", _, rfl, List.mem_singleton_self _⟩
  have gone : ¬ (empty.run (remnantSteps ++ [.drop .pattern "strong"])).2.Held 0 := fun held =>
    absurd ((mem_held_iff (sound_empty.run _)).2 held) (by decide +kernel)
  refine ⟨((lifetimes remnantSteps).defined ⟨0, 0⟩ _ held ⟨_, rfl, rfl⟩ _ _).2 ⟨2, ?_⟩,
    (lifetimes _).dropped ⟨0, 0⟩ gone, (lifetimes _).gone 0 (by decide +kernel) gone⟩
  decide +kernel

end Workbench

end Recognizer
