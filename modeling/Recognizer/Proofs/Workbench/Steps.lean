import Recognizer.Proofs.Grammar.Growth
import Recognizer.Proofs.Json.Construction
import Recognizer.Workbench.Basic

/-!
# What steps do

`Workbench.Does` says of each kind of step when it succeeds, what it answers and what it leaves
(`Workbench.does_of_attempt`). Preparing a recipe adds finished JSON grammars to the store and
nothing else (`Store.Supplied`); the links of its pattern are those of kept patterns and strong ones
into the grammars that were added (`Workbench.realize_source`).
-/

namespace Recognizer

namespace Store

variable {s s' s'' : Store} {place : RuleId} {slot : Slot}

/-- `s'` is `s` with JSON grammars added behind its tables. -/
inductive Supplied (s : Store) : Store → Prop where
  | refl : Supplied s s
  | json {s' : Store} (o : Json.Options) : Supplied s s' →
    Supplied s ⟨s'.tables ++ [Json.rulesAt o s'.tables.length]⟩

namespace Supplied

/-- Grammars are added behind those that have been added. -/
lemma trans (h : s.Supplied s') (h' : s'.Supplied s'') : s.Supplied s'' := by
  induction h' with
  | refl => exact h
  | json o _ ih => exact .json o ih

/-- Preparing an entry point adds its grammar, if it has one. -/
lemma prepare (o : Json.Options) (s : Store) (entry : Json.Entry) :
    s.Supplied ⟨s.tables ++ entry.tablesAt o s.tables.length⟩ := by
  cases entry with
  | value => exact .json o .refl
  | object => exact .json o .refl
  | array => exact .json o .refl
  | document => exact .json o .refl
  | _ => rw [Json.Entry.tablesAt, List.append_nil]; exact .refl

/-- The tables are those there were and some more. -/
lemma exists_append (h : s.Supplied s') : ∃ added, s'.tables = s.tables ++ added := by
  induction h with
  | refl => exact ⟨[], (List.append_nil _).symm⟩
  | @json s' o _ ih =>
    obtain ⟨added, ih⟩ := ih
    exact ⟨added ++ [Json.rulesAt o s'.tables.length], by rw [ih, List.append_assoc]⟩

/-- There are no fewer. -/
lemma length_le (h : s.Supplied s') : s.tables.length ≤ s'.tables.length := by
  obtain ⟨added, h⟩ := h.exists_append
  rw [h, List.length_append]
  omega

/-- The tables that there were stay as they are. -/
lemma slots_eq (h : s.Supplied s') {table : Nat} (lt : table < s.tables.length) :
    s'.slots table = s.slots table := by
  obtain ⟨added, h⟩ := h.exists_append
  rw [slots, slots, h, List.getElem?_append_left lt]

end Supplied

/-- The slots that there were stay as well. -/
lemma Supplied.slot?_eq (h : s.Supplied s') (hs : s.slot? place = some slot) :
    s'.slot? place = some slot := by
  rw [slot?, h.slots_eq (lt_length_of_slot? hs)]
  exact hs

/-- A supplied store extends the one it comes from. -/
lemma Supplied.extends (h : s.Supplied s') : s.Extends s' :=
  fun _ slot hs => ⟨slot, h.slot?_eq hs, rfl, fun _ h => h⟩

/-- The rules of added grammars are defined by weak links to rules that there are. -/
lemma Supplied.defines (h : s.Supplied s') {keeper : Keeper} (hd : s'.Defines place keeper) :
    s.Defines place keeper ∨ s.tables.length ≤ place.table ∧
      ∀ link ∈ keeper.pattern.references, ∃ rule, link = .weak rule ∧ (s'.slot? rule).isSome := by
  obtain ⟨slot, hs, hk⟩ := hd
  induction h with
  | refl => exact .inl ⟨slot, hs, hk⟩
  | @json s' o earlier ih =>
    have lt := lt_length_of_slot? hs
    rw [List.length_append, List.length_singleton] at lt
    obtain lt | same := Nat.lt_succ_iff_lt_or_eq.1 lt
    · rw [slot?, (Supplied.json o (s := s') .refl).slots_eq lt] at hs
      refine (ih hs).imp_right fun source => ⟨source.1, fun link hl => ?_⟩
      obtain ⟨rule, rfl, hr⟩ := source.2 link hl
      exact ⟨rule, rfl, (Supplied.json o .refl).extends.isSome_slot? hr⟩
    · refine .inr ⟨same ▸ earlier.length_le, fun link hl => ?_⟩
      rw [slot?, same, slots_last] at hs
      obtain ⟨keeper', hk', weak⟩ := Json.weak_of_mem_rulesAt (List.mem_of_getElem? hs)
      cases hk'.symm.trans hk
      obtain ⟨i, hi, rfl⟩ := weak link hl
      refine ⟨_, rfl, ?_⟩
      rw [slot?, slots_last]
      exact Option.isSome_iff_exists.2 ⟨_, List.getElem?_eq_getElem hi⟩

/-- A reference that is given out is a weak link to a rule of the builder. -/
lemma reference_eq_ok {b : Builder} {rule : Rule} {p : Pattern Link}
    (h : s.reference b rule = .ok p) : s.Owns b.table rule ∧ p = .refer (.weak rule.id) := by
  rw [reference] at h
  split at h
  · next owns =>
    cases h
    exact ⟨owns, rfl⟩
  · cases h

/-- A rule that is given out is a strong link to a rule of the grammar. -/
lemma rule_eq_ok {g : Grammar} {rule : Rule} {p : Pattern Link} (h : s.rule g rule = .ok p) :
    s.Owns g.table rule ∧ p = .refer (.strong rule.id) := by
  rw [Store.rule] at h
  split at h
  · next owns =>
    cases h
    exact ⟨owns, rfl⟩
  · cases h

end Store

namespace Supply

variable {kept : String → Option Keeper} {supply supply' : Supply}

/-- Where the links of a prepared pattern come from, if preparing it turned `s` into `s'`: a link of
a kept pattern, or a strong one into what was added. -/
def Source (kept : String → Option Keeper) (s s' : Store) (link : Link) : Prop :=
  (∃ name keeper, kept name = some keeper ∧ link ∈ keeper.pattern.references) ∨
    ∃ rule, link = .strong rule ∧ s.tables.length ≤ rule.table ∧ (s'.slot? rule).isSome

/-- A source in the middle of the preparation is one for all of it. -/
lemma Source.mono {s s₁ s₁' s' : Store} {link : Link} (h : Source kept s₁ s₁' link)
    (hs : s.Supplied s₁) (hs' : s₁'.Supplied s') : Source kept s s' link := by
  exact h.imp_right fun ⟨rule, hl, le, hr⟩ =>
    ⟨rule, hl, Nat.le_trans hs.length_le le, hs'.extends.isSome_slot? hr⟩

/-- Preparing an ingredient adds at most one grammar and makes links to it or to what is kept. -/
lemma prepare_source {ingredient : Ingredient} {keeper : Keeper}
    (h : prepare kept ingredient supply = .ok (keeper, supply')) :
    supply.store.Supplied supply'.store ∧
      ∀ link ∈ keeper.pattern.references, Source kept supply.store supply'.store link := by
  cases ingredient with
  | kept name =>
    simp only [prepare] at h
    split at h
    · next k hk =>
      cases h
      exact ⟨.refl, fun link hl => .inl ⟨name, keeper, hk, hl⟩⟩
    · cases h
  | json entry options =>
    simp only [prepare, entry.prepare_eq] at h
    cases h
    refine ⟨.prepare options supply.store entry, fun link hl => .inr ?_⟩
    obtain ⟨added, i, hi, rfl⟩ := Json.Entry.strong_of_mem_patternAt hl
    refine ⟨_, rfl, Nat.le_refl _, ?_⟩
    rw [added, Store.slot?, Store.slots_last]
    exact Option.isSome_iff_exists.2 ⟨_, List.getElem?_eq_getElem hi⟩
  | stray consumed remainder =>
    cases h
    refine ⟨.refl, fun link hl => ?_⟩
    cases hl

/-- The same for ingredients that are prepared one after the other. -/
lemma prepareAll_source {ingredients : List Ingredient} {keepers : List Keeper}
    (h : ingredients.mapM (prepare kept) supply = .ok (keepers, supply')) :
    supply.store.Supplied supply'.store ∧ ∀ keeper ∈ keepers,
      ∀ link ∈ keeper.pattern.references, Source kept supply.store supply'.store link := by
  induction ingredients generalizing supply keepers with
  | nil =>
    rw [List.mapM_nil] at h
    cases h
    exact ⟨.refl, fun _ hk => nomatch hk⟩
  | cons ingredient ingredients ih =>
    rw [List.mapM_cons] at h
    obtain ⟨⟨keeper, supply₁⟩, hp, h⟩ := Except.bind_ok h
    obtain ⟨⟨keepers, supply₂⟩, hps, h⟩ := Except.bind_ok h
    cases h
    obtain ⟨first, source⟩ := prepare_source hp
    obtain ⟨others, sources⟩ := ih hps
    refine ⟨first.trans others, List.forall_mem_cons.2 ⟨fun link hl => ?_, fun k hk link hl => ?_⟩⟩
    · exact (source link hl).mono .refl others
    · exact (sources k hk link hl).mono first .refl

/-- Preparing a recipe adds JSON grammars to the store, and the pattern has links to kept patterns
and to these only. -/
lemma realize_source {recipe : Recipe} {keeper : Keeper}
    (h : supply.realize kept recipe = .ok (keeper, supply')) :
    supply.store.Supplied supply'.store ∧
      ∀ link ∈ keeper.pattern.references, Source kept supply.store supply'.store link := by
  obtain ⟨⟨p, supply₁⟩, hp, h⟩ := Except.bind_ok h
  cases h
  have references : recipe.references.mapM (prepare kept) supply = .ok (p.references, supply') := by
    rw [← Pattern.references_mapM]
    show (recipe.mapM (prepare kept) supply).map _ = _
    replace hp : recipe.mapM (prepare kept) supply = .ok (p, supply') := hp
    rw [hp]
    rfl
  obtain ⟨supplied, sources⟩ := prepareAll_source references
  refine ⟨supplied, fun link hl => ?_⟩
  rw [Keeper.assemble, Pattern.references_bind, List.mem_flatMap] at hl
  obtain ⟨k, hk, hl⟩ := hl
  exact sources k hk link hl

end Supply

namespace Workbench

variable {w : Workbench}

/-- What a step that succeeds answers and leaves. -/
inductive Does (w : Workbench) : Step → Answer → Workbench → Prop where
  | builder (name : String) :
    Does w (.builder name) .done
      { w with store := w.store.newBuilder.2, builders := w.builders.put name w.store.newBuilder.1 }
  | declare {builder handle ruleName : String} {b : Builder} :
    w.builders.get? builder = some b →
    Does w (.declare builder handle ruleName) (.declared ruleName)
      { w with
        store := (w.store.declare b ruleName).2
        handles := w.handles.put handle (w.store.declare b ruleName).1 }
  | reference {builder handle pattern : String} {b : Builder} {rule : Rule} :
    w.builders.get? builder = some b → w.handles.get? handle = some rule →
    w.store.Owns b.table rule →
    Does w (.reference builder handle pattern) .done
      { w with patterns := w.patterns.put pattern (.ofPattern (.refer (.weak rule.id))) }
  | keep {pattern : String} {recipe : Recipe} {keeper : Keeper} {supply : Supply} :
    w.toSupply.realize w.patterns.get? recipe = .ok (keeper, supply) →
    Does w (.keep pattern recipe) .done
      { w with toSupply := supply, patterns := w.patterns.put pattern keeper }
  | define {builder handle : String} {recipe : Recipe} {b : Builder} {rule : Rule} {keeper : Keeper}
      {supply : Supply} {store : Store} :
    w.builders.get? builder = some b → w.handles.get? handle = some rule →
    w.toSupply.realize w.patterns.get? recipe = .ok (keeper, supply) →
    supply.store.define b rule keeper = .ok store →
    Does w (.define builder handle recipe) .done { w with store, texts := supply.texts }
  | build {builder grammar : String} {b : Builder} {g : Grammar} :
    w.builders.get? builder = some b → w.store.build b = .ok g →
    Does w (.build builder grammar) (.built (w.store.ruleNames g.table))
      { w with builders := w.builders.erase builder, grammars := w.grammars.put grammar g }
  | rule {grammar handle pattern : String} {g : Grammar} {rule : Rule} :
    w.grammars.get? grammar = some g → w.handles.get? handle = some rule →
    w.store.Owns g.table rule →
    Does w (.rule grammar handle pattern) .done
      { w with patterns := w.patterns.put pattern (.ofPattern (.refer (.strong rule.id))) }
  | clone {grammar copy : String} {g : Grammar} : w.grammars.get? grammar = some g →
    Does w (.clone grammar copy) .done { w with grammars := w.grammars.put copy g }
  | showBuilder {builder : String} {b : Builder} : w.builders.get? builder = some b →
    Does w (.showBuilder builder)
      (.shown (describe "GrammarBuilder" (w.store.ruleNames b.table))) w
  | showGrammar {grammar : String} {g : Grammar} : w.grammars.get? grammar = some g →
    Does w (.showGrammar grammar) (.shown (describe "Grammar" (w.store.ruleNames g.table))) w
  | drop (kind : Kind) (name : String) :
    Does w (.drop kind name) (w.drop name kind).1 (w.drop name kind).2
  | parse {pattern text : String} {keeper : Keeper} : w.patterns.get? pattern = some keeper →
    Does w (.parse pattern text)
      (.parsed (.ofString 0 text)
        (keeper.pattern.parse? w.scope.definitions depthLimit (.ofString 0 text))) w

/-- What is looked up is kept under the name. -/
lemma get?_of_look {α : Type} {s : Shelf α} {name : String} {a : α} (h : look s name = .ok a) :
    s.get? name = some a := by
  rw [look] at h
  split at h
  · next h' =>
    cases h
    exact h'
  · cases h

/-- What is checked was no mistake. -/
lemma checked_eq_ok {α : Type} {r : Except GrammarError α} {a : α} (h : checked r = .ok a) :
    r = .ok a := by
  cases r with
  | error e => cases h
  | ok a' =>
    cases h
    rfl

/-- A recipe changes the supply of a workbench and nothing else. -/
lemma realize_eq_ok {recipe : Recipe} {keeper : Keeper} {w' : Workbench}
    (h : w.realize recipe = .ok (keeper, w')) :
    ∃ supply, w.toSupply.realize w.patterns.get? recipe = .ok (keeper, supply) ∧
      w' = { w with toSupply := supply } := by
  obtain ⟨⟨keeper', supply⟩, hs, hw⟩ := Except.bind_ok h
  cases hw
  exact ⟨supply, hs, rfl⟩

/-- A step that succeeds does what is said of it. -/
theorem does_of_attempt {s : Step} {answer : Answer} {w' : Workbench}
    (h : w.attempt s = .ok (answer, w')) : Does w s answer w' := by
  cases s with
  | builder name =>
    cases h
    exact .builder name
  | declare builder handle ruleName =>
    obtain ⟨b, hb, h⟩ := Except.bind_ok h
    cases h
    exact .declare (get?_of_look hb)
  | reference builder handle pattern =>
    obtain ⟨b, hb, h⟩ := Except.bind_ok h
    obtain ⟨rule, hr, h⟩ := Except.bind_ok h
    obtain ⟨p, hp, h⟩ := Except.bind_ok h
    cases h
    obtain ⟨owns, rfl⟩ := Store.reference_eq_ok (checked_eq_ok hp)
    exact .reference (get?_of_look hb) (get?_of_look hr) owns
  | keep pattern recipe =>
    obtain ⟨⟨keeper, w₁⟩, hw, h⟩ := Except.bind_ok h
    obtain ⟨supply, hk, rfl⟩ := realize_eq_ok hw
    cases h
    exact .keep hk
  | define builder handle recipe =>
    obtain ⟨b, hb, h⟩ := Except.bind_ok h
    obtain ⟨rule, hr, h⟩ := Except.bind_ok h
    obtain ⟨⟨keeper, w₁⟩, hw, h⟩ := Except.bind_ok h
    obtain ⟨supply, hk, rfl⟩ := realize_eq_ok hw
    obtain ⟨store, hd, h⟩ := Except.bind_ok h
    cases h
    exact .define (get?_of_look hb) (get?_of_look hr) hk (checked_eq_ok hd)
  | build builder grammar =>
    obtain ⟨b, hb, h⟩ := Except.bind_ok h
    obtain ⟨g, hg, h⟩ := Except.bind_ok h
    cases h
    exact .build (get?_of_look hb) (checked_eq_ok hg)
  | rule grammar handle pattern =>
    obtain ⟨g, hg, h⟩ := Except.bind_ok h
    obtain ⟨rule, hr, h⟩ := Except.bind_ok h
    obtain ⟨p, hp, h⟩ := Except.bind_ok h
    cases h
    obtain ⟨owns, rfl⟩ := Store.rule_eq_ok (checked_eq_ok hp)
    exact .rule (get?_of_look hg) (get?_of_look hr) owns
  | clone grammar copy =>
    obtain ⟨g, hg, h⟩ := Except.bind_ok h
    cases h
    exact .clone (get?_of_look hg)
  | showBuilder builder =>
    obtain ⟨b, hb, h⟩ := Except.bind_ok h
    cases h
    exact .showBuilder (get?_of_look hb)
  | showGrammar grammar =>
    obtain ⟨g, hg, h⟩ := Except.bind_ok h
    cases h
    exact .showGrammar (get?_of_look hg)
  | drop kind name =>
    have dropped : w.drop name kind = (answer, w') := Except.ok.inj h
    have does := Does.drop (w := w) kind name
    rw [dropped] at does
    exact does
  | parse pattern text =>
    obtain ⟨keeper, hk, h⟩ := Except.bind_ok h
    cases h
    exact .parse (get?_of_look hk)

/-- The slots of all rules stay, whatever is done. -/
lemma Does.extends {s : Step} {answer : Answer} {w' : Workbench} (h : Does w s answer w') :
    w.store.Extends w'.store := by
  cases h with
  | builder name => exact Store.extends_newBuilder w.store
  | @declare _ _ ruleName b _ => exact Store.extends_declare w.store b ruleName
  | keep hk => exact (Supply.realize_source hk).1.extends
  | define _ _ hk hd => exact (Supply.realize_source hk).1.extends.trans (Store.extends_define hd)
  | drop kind name => cases kind <;> exact .refl w.store
  | _ => exact .refl w.store

/-- A step succeeds and does what is said of it, or it fails. Then the workbench is as it was, but
for a builder that could not be built. -/
lemma step_cases (w : Workbench) (s : Step) :
    (∃ answer w', w.step s = (.ok answer, w') ∧ Does w s answer w') ∨
      ∃ fault, w.step s = (.error fault, w.afterFault s) := by
  rw [step]
  generalize hr : w.attempt s = r
  cases r with
  | ok r => exact .inl ⟨r.1, r.2, rfl, does_of_attempt hr⟩
  | error fault => exact .inr ⟨fault, rfl⟩

/-- What holds after a step: what holds after it if it succeeds, now, and without a builder. -/
lemma step_preserves {P : Workbench → Prop} (h : P w) {s : Step}
    (does : ∀ {answer w'}, Does w s answer w' → P w')
    (erase : ∀ builder, P { w with builders := w.builders.erase builder }) :
    P (w.step s).2 := by
  obtain ⟨answer, w', hw, hd⟩ | ⟨fault, hw⟩ := w.step_cases s
  · rw [hw]
    exact does hd
  · rw [hw]
    cases s with
    | build builder grammar => exact erase builder
    | _ => exact h

/-- What stays through each step stays through any number of them. -/
theorem run_preserves {P : Workbench → Prop}
    (does : ∀ {w s answer w'}, P w → Does w s answer w' → P w')
    (erase : ∀ {w : Workbench} (builder : String), P w →
      P { w with builders := w.builders.erase builder })
    (h : P w) (steps : List Step) : P (w.run steps).2 := by
  induction steps generalizing w with
  | nil => exact h
  | cons s steps ih => exact ih (step_preserves h (does h) fun builder => erase builder h)

/-- Slots stay, with their names and definitions, through any number of steps. -/
lemma run_extends (w : Workbench) (steps : List Step) : w.store.Extends (w.run steps).2.store :=
  run_preserves (P := fun w' => w.store.Extends w'.store)
    (fun h hd => h.trans hd.extends) (fun _ h => h) (.refl w.store) steps

end Workbench

end Recognizer
