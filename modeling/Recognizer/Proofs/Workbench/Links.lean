import Mathlib.Logic.Relation
import Recognizer.Proofs.Workbench.Shelves
import Recognizer.Proofs.Workbench.Steps

/-!
# Links on a workbench

Where the links of patterns and definitions come from (`Workbench.Origin`), and what is true of them
at all times (`Workbench.Sound`). Strong links come from grammars, that is from tables that are
finished, and only the tables of builders get new definitions. So no strong link leads to a table
that still grows, and strong links form no circle.
-/

namespace Recognizer

variable {s s' : Store} {place : RuleId} {keeper : Keeper}

/-- A pattern keeps the tables that its strong links lead to. -/
lemma Pattern.mem_keeps {p : Pattern Link} {table : Nat} :
    table ∈ p.keeps ↔ ∃ rule, Link.strong rule ∈ p.references ∧ rule.table = table := by
  rw [Pattern.keeps, List.mem_filterMap]
  constructor
  · rintro ⟨_ | rule, hl, ht⟩
    · cases ht
    · exact ⟨rule, hl, Option.some.inj ht⟩
  · rintro ⟨rule, hl, rfl⟩
    exact ⟨.strong rule, hl, rfl⟩

/-- A table keeps another by a strong link in the definition of one of its rules. -/
lemma Store.mem_keptBy_iff {table table' : Nat} : table' ∈ s.keptBy table ↔
    ∃ place keeper rule, s.Defines place keeper ∧ place.table = table ∧
      Link.strong rule ∈ keeper.pattern.references ∧ rule.table = table' := by
  rw [Store.mem_keptBy]
  constructor
  · rintro ⟨slot, hs, keeper, hk, ht⟩
    obtain ⟨i, hi⟩ := List.mem_iff_getElem?.1 hs
    obtain ⟨rule, hl, hr⟩ := Pattern.mem_keeps.1 ht
    exact ⟨⟨table, i⟩, keeper, rule, ⟨slot, hi, hk⟩, rfl, hl, hr⟩
  · rintro ⟨place, keeper, rule, ⟨slot, hs, hk⟩, rfl, hl, hr⟩
    exact ⟨slot, List.mem_of_getElem? hs, keeper, hk, Pattern.mem_keeps.2 ⟨rule, hl, hr⟩⟩

namespace Workbench

variable {w w' : Workbench} {link : Link}

/-- A pattern on the workbench has the link. -/
def Offers (w : Workbench) (link : Link) : Prop :=
  ∃ name keeper, w.patterns.get? name = some keeper ∧ link ∈ keeper.pattern.references

/-- How a link of a new pattern or definition came about in a step from `w` to `w'`. -/
inductive Origin (w w' : Workbench) : Link → Prop where
  | kept {link : Link} : w.Offers link → Origin w w' link
  | reference {rule : RuleId} : (w'.store.slot? rule).isSome → Origin w w' (.weak rule)
  | grammar {name : String} {g : Grammar} {rule : RuleId} : w.grammars.get? name = some g →
    rule.table = g.table → (w'.store.slot? rule).isSome → Origin w w' (.strong rule)
  | added {rule : RuleId} : w.store.tables.length ≤ rule.table → (w'.store.slot? rule).isSome →
    Origin w w' (.strong rule)

/-- A pattern that is put on the workbench adds its own links only. -/
lemma offers_put {name : String}
    (h : Offers { w with patterns := w.patterns.put name keeper } link) :
    w.Offers link ∨ link ∈ keeper.pattern.references := by
  obtain ⟨name', keeper', hk, hl⟩ := h
  obtain ⟨_, rfl⟩ | ⟨_, hk⟩ := Shelf.of_get?_put hk
  · exact .inr hl
  · exact .inl ⟨name', keeper', hk, hl⟩

/-- What a table owns has a slot. -/
lemma isSome_slot?_of_owns {table : Nat} {rule : Rule} (h : s.Owns table rule) :
    (s.slot? rule.id).isSome := by
  obtain ⟨rfl, lt⟩ := h
  exact Option.isSome_iff_exists.2 ⟨_, List.getElem?_eq_getElem lt⟩

/-- The links of a prepared pattern come from the workbench or from what was added. -/
lemma origin_of_source {supply : Supply} (hs : supply.store.Extends w'.store)
    (h : Supply.Source w.patterns.get? w.store supply.store link) : Origin w w' link := by
  obtain h | ⟨rule, rfl, le, hr⟩ := h
  · exact .kept h
  · exact .added le (hs.isSome_slot? hr)

/-- The links of the patterns after a step. -/
lemma Does.origin_of_offers {s : Step} {answer : Answer} (hd : Does w s answer w')
    (h : w'.Offers link) : Origin w w' link := by
  cases hd with
  | reference hb hr owns =>
    obtain h | h := offers_put h
    · exact .kept h
    · obtain rfl := List.mem_singleton.1 h
      exact .reference (isSome_slot?_of_owns owns)
  | @keep pattern recipe keeper supply hk =>
    obtain h | h := offers_put (w := { w with toSupply := supply }) h
    · exact .kept h
    · exact origin_of_source (.refl _) ((Supply.realize_source hk).2 link h)
  | rule hg hr owns =>
    obtain h | h := offers_put h
    · exact .kept h
    · obtain rfl := List.mem_singleton.1 h
      exact .grammar hg owns.1 (isSome_slot?_of_owns owns)
  | drop kind name =>
    cases kind with
    | pattern =>
      obtain ⟨name', keeper, hk, hl⟩ := h
      exact .kept ⟨name', keeper, (Shelf.of_get?_erase hk).2, hl⟩
    | _ => exact .kept h
  | _ => exact .kept h

/-- The definitions after a step: those from before, those of an added grammar, and one given to a
rule of a builder. -/
lemma Does.defines_cases {s : Step} {answer : Answer} (hd : Does w s answer w')
    (h : w'.store.Defines place keeper) : w.store.Defines place keeper ∨
      (w.store.tables.length ≤ place.table ∧ ∀ link ∈ keeper.pattern.references,
        ∃ rule, link = .weak rule ∧ (w'.store.slot? rule).isSome) ∨
      (∃ name b, w'.builders.get? name = some b ∧ place.table = b.table) ∧
        ∀ link ∈ keeper.pattern.references, Origin w w' link := by
  cases hd with
  | builder name => exact .inl h.of_newBuilder
  | declare hb => exact .inl h.of_declare
  | keep hk => exact ((Supply.realize_source hk).1.defines h).imp_right .inl
  | @define builder handle recipe b rule keeper' supply store hb hr hk hd =>
    obtain ⟨supplied, source⟩ := Supply.realize_source hk
    have kept := Store.extends_define hd
    obtain h | ⟨rfl, rfl⟩ := h.of_define hd
    · refine (supplied.defines h).imp_right fun ⟨le, weak⟩ => .inl ⟨le, fun link hl => ?_⟩
      obtain ⟨rule, rfl, hr⟩ := weak link hl
      exact ⟨rule, rfl, kept.isSome_slot? hr⟩
    · refine .inr (.inr ⟨⟨builder, b, hb, (Store.define_eq_ok hd).1.1⟩, fun link hl => ?_⟩)
      exact origin_of_source kept (source link hl)
  | drop kind name => cases kind <;> exact .inl h
  | _ => exact .inl h

/-- A builder after a step was there before or has a table of its own without rules. -/
lemma Does.builder_cases {s : Step} {answer : Answer} (hd : Does w s answer w') {name : String}
    {b : Builder} (h : w'.builders.get? name = some b) : w.builders.get? name = some b ∨
      b.table = w.store.tables.length ∧ w'.store.slots b.table = [] ∧
        w'.grammars = w.grammars ∧ w'.store.tables.length = w.store.tables.length + 1 ∧
        ∀ other, other ≠ name → w'.builders.get? other = w.builders.get? other := by
  cases hd with
  | builder name' =>
    obtain ⟨rfl, rfl⟩ | ⟨_, h⟩ := Shelf.of_get?_put h
    · refine .inr ⟨rfl, ?_, rfl, List.length_append, fun other ne => ?_⟩
      · have new : w.store.tables[w.store.tables.length]? = none :=
          List.getElem?_eq_none (Nat.le_refl _)
        rw [Store.slots_newBuilder]
        exact congrArg (·.getD []) new
      · exact (Shelf.get?_put ..).trans (if_neg ne)
    · exact .inl h
  | build hb hg => exact .inl (Shelf.of_get?_erase h).2
  | drop kind name' =>
    cases kind with
    | builder => exact .inl (Shelf.of_get?_erase h).2
    | _ => exact .inl h
  | _ => exact .inl h

/-- A grammar after a step was there before, under some name, or has the table of a builder that is
used up. -/
lemma Does.grammar_cases {s : Step} {answer : Answer} (hd : Does w s answer w') {name : String}
    {g : Grammar} (h : w'.grammars.get? name = some g) :
    (∃ name', w.grammars.get? name' = some g) ∨
      ∃ name' b, w.builders.get? name' = some b ∧ g.table = b.table ∧
        w'.builders = w.builders.erase name' := by
  cases hd with
  | @build builder grammar b g' hb hg =>
    obtain ⟨_, rfl⟩ | ⟨_, h⟩ := Shelf.of_get?_put h
    · obtain ⟨_, rfl⟩ := Store.build_eq_ok hg
      exact .inr ⟨builder, b, hb, rfl, rfl⟩
    · exact .inl ⟨name, h⟩
  | clone hg =>
    obtain ⟨_, rfl⟩ | ⟨_, h⟩ := Shelf.of_get?_put h
    · exact .inl ⟨_, hg⟩
    · exact .inl ⟨name, h⟩
  | drop kind name' =>
    cases kind with
    | grammar => exact .inl ⟨name, (Shelf.of_get?_erase h).2⟩
    | _ => exact .inl ⟨name, h⟩
  | _ => exact .inl ⟨name, h⟩

/-- No step removes a table. -/
lemma Does.length_le {s : Step} {answer : Answer} (hd : Does w s answer w') :
    w.store.tables.length ≤ w'.store.tables.length := by
  cases hd with
  | builder name =>
    rw [Store.newBuilder, List.length_append]
    exact Nat.le_add_right _ _
  | declare hb => exact Nat.le_of_eq (List.length_modify _ _ _).symm
  | keep hk => exact (Supply.realize_source hk).1.length_le
  | define hb hr hk hd =>
    obtain ⟨_, _, rfl⟩ := Store.define_eq_ok hd
    rw [List.length_modify]
    exact (Supply.realize_source hk).1.length_le
  | drop kind name => cases kind <;> exact Nat.le_refl _
  | _ => exact Nat.le_refl _

/-- Names stay unique. -/
lemma Does.tidy {s : Step} {answer : Answer} (hd : Does w s answer w')
    (h : w.builders.Tidy ∧ w.grammars.Tidy ∧ w.patterns.Tidy) :
    w'.builders.Tidy ∧ w'.grammars.Tidy ∧ w'.patterns.Tidy := by
  obtain ⟨builders, grammars, patterns⟩ := h
  cases hd with
  | builder name => exact ⟨builders.put _ _, grammars, patterns⟩
  | reference hb hr owns => exact ⟨builders, grammars, patterns.put _ _⟩
  | keep hk => exact ⟨builders, grammars, patterns.put _ _⟩
  | build hb hg => exact ⟨builders.erase _, grammars.put _ _, patterns⟩
  | rule hg hr owns => exact ⟨builders, grammars, patterns.put _ _⟩
  | clone hg => exact ⟨builders, grammars.put _ _, patterns⟩
  | drop kind name =>
    cases kind with
    | builder => exact ⟨builders.erase _, grammars, patterns⟩
    | grammar => exact ⟨builders, grammars.erase _, patterns⟩
    | pattern => exact ⟨builders, grammars, patterns.erase _⟩
  | _ => exact ⟨builders, grammars, patterns⟩

/-- The table of a builder has no other builder and no grammar, and no strong link leads to it. -/
structure Growing (w : Workbench) (builder : String) (table : Nat) : Prop where
  lt : table < w.store.tables.length
  alone : ∀ name b, w.builders.get? name = some b → b.table = table → name = builder
  unbuilt : ∀ name g, w.grammars.get? name = some g → g.table ≠ table
  unoffered : ∀ rule, w.Offers (.strong rule) → rule.table ≠ table
  unkept : ∀ table', table ∉ w.store.keptBy table'

/-- What holds of a workbench at all times. -/
structure Sound (w : Workbench) : Prop where
  tidy : w.builders.Tidy ∧ w.grammars.Tidy ∧ w.patterns.Tidy
  /-- Links lead to rules that there are. -/
  offered : ∀ link, w.Offers link → (w.store.slot? link.rule).isSome
  defined : ∀ place keeper, w.store.Defines place keeper →
    ∀ link ∈ keeper.pattern.references, (w.store.slot? link.rule).isSome
  built : ∀ name g, w.grammars.get? name = some g → g.table < w.store.tables.length
  growing : ∀ name b, w.builders.get? name = some b → w.Growing name b.table
  acyclic : ∀ table, ¬ Relation.TransGen (fun t t' => t' ∈ w.store.keptBy t) table table

/-- Nothing is wrong with an empty workbench. -/
lemma sound_empty : empty.Sound where
  tidy := ⟨Shelf.tidy_empty, Shelf.tidy_empty, Shelf.tidy_empty⟩
  offered _ h := nomatch h
  defined _ _ h := nomatch h
  built _ _ h := nomatch h
  growing _ _ h := nomatch h
  acyclic table h := by
    cases h with
    | single h => cases h
    | tail _ h => cases h

/-- New links that start only where none end close no circle. -/
lemma acyclic_of_starts {R R' : Nat → Nat → Prop} (start : Nat → Prop)
    (old : ∀ t t', R' t t' → R t t' ∨ start t) (ends : ∀ t t', R' t t' → ¬ start t')
    (acyclic : ∀ t, ¬ Relation.TransGen R t t) (t : Nat) : ¬ Relation.TransGen R' t t := by
  have target {u v : Nat} (h : Relation.TransGen R' u v) : ¬ start v := by
    cases h with
    | single h => exact ends _ _ h
    | tail _ h => exact ends _ _ h
  intro circle
  have before {v : Nat} (h : Relation.TransGen R' t v) : Relation.TransGen R t v := by
    induction h with
    | single h => exact .single ((old _ _ h).resolve_right (target circle))
    | tail hu h ih => exact ih.tail ((old _ _ h).resolve_right (target hu))
  exact acyclic t (before circle)

namespace Sound

variable {s : Step} {answer : Answer}

/-- Whatever a link comes from, its rule is there. -/
lemma isSome_of_origin (h : w.Sound) (hd : Does w s answer w') (ho : Origin w w' link) :
    (w'.store.slot? link.rule).isSome := by
  cases ho with
  | kept hl => exact hd.extends.isSome_slot? (h.offered _ hl)
  | reference hr => exact hr
  | grammar _ _ hr => exact hr
  | added _ hr => exact hr

/-- The links of patterns lead to rules that there are, also after the step. -/
lemma offered_after (h : w.Sound) (hd : Does w s answer w') (link : Link) (hl : w'.Offers link) :
    (w'.store.slot? link.rule).isSome :=
  h.isSome_of_origin hd (hd.origin_of_offers hl)

/-- So do the links of definitions. -/
lemma defined_after (h : w.Sound) (hd : Does w s answer w') (place : RuleId) (keeper : Keeper)
    (hk : w'.store.Defines place keeper) (link : Link) (hl : link ∈ keeper.pattern.references) :
    (w'.store.slot? link.rule).isSome := by
  obtain hk | ⟨_, weak⟩ | ⟨_, origin⟩ := hd.defines_cases hk
  · exact hd.extends.isSome_slot? (h.defined place keeper hk link hl)
  · obtain ⟨rule, rfl, hr⟩ := weak link hl
    exact hr
  · exact h.isSome_of_origin hd (origin link hl)

/-- Grammars have tables that exist, also after the step. -/
lemma built_after (h : w.Sound) (hd : Does w s answer w') (name : String) (g : Grammar)
    (hg : w'.grammars.get? name = some g) : g.table < w'.store.tables.length := by
  refine Nat.lt_of_lt_of_le ?_ hd.length_le
  obtain ⟨name', hg⟩ | ⟨name', b, hb, same, _⟩ := hd.grammar_cases hg
  · exact h.built name' g hg
  · exact same ▸ (h.growing name' b hb).lt

/-- No new strong link leads to a table that grew before. -/
lemma table_ne_of_origin (h : w.Sound) {name : String} {b : Builder}
    (hb : w.builders.get? name = some b) {rule : RuleId} (ho : Origin w w' (.strong rule)) :
    rule.table ≠ b.table := by
  have growing := h.growing name b hb
  cases ho with
  | kept hl => exact growing.unoffered rule hl
  | grammar hg same hr => exact same ▸ growing.unbuilt _ _ hg
  | added le hr => exact fun same => absurd growing.lt (Nat.not_lt.2 (same ▸ le))

/-- Builders go on to have tables of their own, without strong links to them. -/
lemma growing_after (h : w.Sound) (hd : Does w s answer w') (name : String) (b : Builder)
    (hb : w'.builders.get? name = some b) : w'.Growing name b.table := by
  obtain hb' | ⟨new, empty, grammars, length, others⟩ := hd.builder_cases hb
  -- The builder was there before: nothing that is new leads into its table.
  · have growing := h.growing name b hb'
    constructor
    · exact Nat.lt_of_lt_of_le growing.lt hd.length_le
    · intro name' b' h' same
      obtain h' | ⟨new, _⟩ := hd.builder_cases h'
      · exact growing.alone name' b' h' same
      · exact absurd growing.lt (by rw [← same, new]; exact Nat.lt_irrefl _)
    · intro name' g hg same
      obtain ⟨name', hg⟩ | ⟨name', b', h', table, used⟩ := hd.grammar_cases hg
      · exact growing.unbuilt name' g hg same
      · obtain rfl := growing.alone name' b' h' (table.symm.trans same)
        rw [used] at hb
        exact (Shelf.of_get?_erase hb).1 rfl
    · exact fun rule hl => h.table_ne_of_origin hb' (hd.origin_of_offers hl)
    · intro table' ht
      obtain ⟨place, keeper, rule, hk, rfl, hl, same⟩ := Store.mem_keptBy_iff.1 ht
      obtain hk | ⟨_, weak⟩ | ⟨_, origin⟩ := hd.defines_cases hk
      · exact growing.unkept _ (Store.mem_keptBy_iff.2 ⟨place, keeper, rule, hk, rfl, hl, same⟩)
      · obtain ⟨_, strong, _⟩ := weak _ hl
        cases strong
      · exact h.table_ne_of_origin hb' (origin _ hl) same
  · -- A new table has no rules that links could lead to.
    have absent {rule : RuleId} (hr : (w'.store.slot? rule).isSome) : rule.table ≠ b.table := by
      intro same
      rw [Store.slot?, same, empty] at hr
      cases hr
    constructor
    · rw [new, length]
      exact Nat.lt_succ_self _
    · intro name' b' h' same
      by_contra ne
      rw [others name' ne] at h'
      exact absurd (h.growing name' b' h').lt (by rw [same, new]; exact Nat.lt_irrefl _)
    · intro name' g hg same
      rw [grammars] at hg
      exact absurd (h.built name' g hg) (by rw [same, new]; exact Nat.lt_irrefl _)
    · exact fun rule hl => absent (h.offered_after hd _ hl)
    · intro table' ht
      obtain ⟨place, keeper, rule, hk, _, hl, same⟩ := Store.mem_keptBy_iff.1 ht
      exact absent (h.defined_after hd place keeper hk _ hl) same

/-- No circle of strong links is closed: definitions go to rules of builders only. -/
lemma acyclic_after (h : w.Sound) (hd : Does w s answer w') (table : Nat) :
    ¬ Relation.TransGen (fun t t' => t' ∈ w'.store.keptBy t) table table := by
  refine acyclic_of_starts (fun t => ∃ name b, w'.builders.get? name = some b ∧ t = b.table)
    (fun t t' ht => ?_) ?_ h.acyclic table
  · obtain ⟨place, keeper, rule, hk, rfl, hl, same⟩ := Store.mem_keptBy_iff.1 ht
    obtain hk | ⟨_, weak⟩ | ⟨start, _⟩ := hd.defines_cases hk
    · exact .inl (Store.mem_keptBy_iff.2 ⟨place, keeper, rule, hk, rfl, hl, same⟩)
    · obtain ⟨_, strong, _⟩ := weak _ hl
      cases strong
    · exact .inr start
  · rintro t _ ht ⟨name, b, hb, rfl⟩
    exact (h.growing_after hd name b hb).unkept t ht

/-- A step that succeeds keeps a workbench sound. -/
lemma does (h : w.Sound) (hd : Does w s answer w') : w'.Sound where
  tidy := hd.tidy h.tidy
  offered := h.offered_after hd
  defined := h.defined_after hd
  built := h.built_after hd
  growing := h.growing_after hd
  acyclic := h.acyclic_after hd

/-- So does letting go of a builder. -/
lemma eraseBuilder (h : w.Sound) (builder : String) :
    Sound { w with builders := w.builders.erase builder } where
  tidy := ⟨h.tidy.1.erase builder, h.tidy.2⟩
  offered := h.offered
  defined := h.defined
  built := h.built
  growing name b hb := by
    have growing := h.growing name b (Shelf.of_get?_erase hb).2
    exact { growing with
      alone := fun name' b' h' => growing.alone name' b' (Shelf.of_get?_erase h').2 }
  acyclic := h.acyclic

/-- And so do all steps, one after the other. -/
theorem run (h : w.Sound) (steps : List Step) : (w.run steps).2.Sound :=
  run_preserves (fun h hd => h.does hd) (fun builder h => h.eraseBuilder builder) h steps

end Sound

end Workbench

end Recognizer
