import Recognizer.Proofs.Workbench.Shelves
import Recognizer.Proofs.Workbench.Steps

/-!
# Accounts of grammar construction

A ledger is what a client can write down who sees the steps and the answers and knows nothing of
tables: which builder declared which rules, in which order, and how often each of them has been
defined. The ledger of a run tells the answers of all later steps of construction
(`Workbench.ledger_tells`): a handle is unknown to all builders and grammars but its own, a rule is
defined once, and a grammar is built when no rule is left to define.
-/

namespace Recognizer

/-- A declared rule: the number of its builder, and its place and name there. -/
structure Ledger.Handle where
  builder : Nat
  index : Nat
  name : String

/-- A rule of a builder, and how often it has been given a definition. -/
structure Ledger.Entry where
  name : String
  definitions : Nat

/-- What is known of builders, grammars and handles. Builders are numbered as they are made. -/
structure Ledger where
  builders : Shelf Nat
  /-- Each grammar goes by the number of its builder. -/
  grammars : Shelf Nat
  handles : Shelf Ledger.Handle
  /-- The rules of all builders, in order of declaration. -/
  rules : List (List Ledger.Entry)

namespace Ledger

open Workbench (Step Answer Does)

/-- The ledger before the first step. -/
def empty : Ledger :=
  ⟨.empty, .empty, .empty, []⟩

/-- The rules listed for a builder. -/
def listed (rules : List (List Entry)) (builder : Nat) : List Entry :=
  rules[builder]?.getD []

/-- The rules of a builder. -/
def entries (l : Ledger) (builder : Nat) : List Entry :=
  listed l.rules builder

/-- How often a rule has been defined. -/
def definitions (l : Ledger) (handle : Handle) : Nat :=
  ((l.entries handle.builder)[handle.index]?.map Entry.definitions).getD 0

/-- Write down a step that succeeded. -/
def note (l : Ledger) : Step → Ledger
  | .builder name =>
    { l with builders := l.builders.put name l.rules.length, rules := l.rules ++ [[]] }
  | .declare builder handle ruleName =>
    match l.builders.get? builder with
    | some n =>
      { l with
        handles := l.handles.put handle ⟨n, (l.entries n).length, ruleName⟩
        rules := l.rules.modify n (· ++ [⟨ruleName, 0⟩]) }
    | none => l
  | .define _ handle _ =>
    match l.handles.get? handle with
    | some h =>
      { l with
        rules := l.rules.modify h.builder
          (·.modify h.index fun e => { e with definitions := e.definitions + 1 }) }
    | none => l
  | .build builder grammar =>
    match l.builders.get? builder with
    | some n =>
      { l with builders := l.builders.erase builder, grammars := l.grammars.put grammar n }
    | none => l
  | .clone grammar copy =>
    match l.grammars.get? grammar with
    | some n => { l with grammars := l.grammars.put copy n }
    | none => l
  | .drop .builder name => { l with builders := l.builders.erase name }
  | .drop .grammar name => { l with grammars := l.grammars.erase name }
  | _ => l

/-- Write down a step and its answer. A builder that could not be built is gone. -/
def follow (l : Ledger) (s : Step) : Except Fault Answer → Ledger
  | .ok _ => l.note s
  | .error _ =>
    match s with
    | .build builder _ => { l with builders := l.builders.erase builder }
    | _ => l

/-- The ledger of some steps on an empty workbench, from what they answer. -/
def ofSteps (steps : List Step) : Ledger :=
  (steps.zip (Workbench.empty.run steps).1).foldl (fun l call => l.follow call.1 call.2) empty

/-- The slot of a rule has its name, and a definition if the rule has been given one. -/
structure Entry.Describes (e : Entry) (slot : Slot) : Prop where
  name : e.name = slot.name
  definitions : e.definitions = slot.definition?.toList.length

/-- Builder number `n` has a table of its own, number `place n`, with a slot for each of its
rules. -/
structure Places (rules : List (List Entry)) (place : Nat → Nat) (s : Store) : Prop where
  lt : ∀ n < rules.length, place n < s.tables.length
  inj : ∀ n < rules.length, ∀ m < rules.length, place n = place m → n = m
  slots : ∀ n < rules.length, List.Forall₂ Entry.Describes (listed rules n) (s.slots (place n))

/-- What is kept under a name belongs to the builder that the ledger has there. -/
structure Describes (l : Ledger) (place : Nat → Nat) (w : Workbench) : Prop where
  places : Places l.rules place w.store
  builders : l.builders.Alike (fun n b => n < l.rules.length ∧ place n = b.table) w.builders
  grammars : l.grammars.Alike (fun n g => n < l.rules.length ∧ place n = g.table) w.grammars
  handles : l.handles.Alike (fun h rule => h.builder < l.rules.length ∧
    h.index < (l.entries h.builder).length ∧ rule = ⟨⟨place h.builder, h.index⟩, h.name⟩) w.handles

variable {l : Ledger} {rules : List (List Entry)} {place place' : Nat → Nat} {s s' : Store}
  {w w' : Workbench}

/-- A change to the rules of one builder leaves those of the others. -/
lemma listed_modify (change : List Entry → List Entry) {n : Nat} (lt : n < rules.length) (m : Nat) :
    listed (rules.modify n change) m =
      if m = n then change (listed rules n) else listed rules m := by
  rw [listed, listed, listed]
  by_cases h : m = n
  · rw [h, if_pos rfl, List.getElem?_modify_eq, List.getElem?_eq_getElem lt]
    rfl
  · rw [if_neg h, List.getElem?_modify_ne _ _ (Ne.symm h)]

namespace Places

/-- Grammars that are added have tables of their own. -/
lemma supplied (h : Places rules place s) (hs : s.Supplied s') : Places rules place s' where
  lt n hn := Nat.lt_of_lt_of_le (h.lt n hn) hs.length_le
  inj := h.inj
  slots n hn := by
    rw [hs.slots_eq (h.lt n hn)]
    exact h.slots n hn

/-- The rules of a builder and the slots of its table change alike. -/
lemma modify (h : Places rules place s) {n : Nat} (hn : n < rules.length)
    {change : List Entry → List Entry} {change' : Table → Table}
    (changed : List.Forall₂ Entry.Describes (change (listed rules n))
      (change' (s.slots (place n)))) :
    Places (rules.modify n change) place ⟨s.tables.modify (place n) change'⟩ where
  lt m hm := by
    rw [List.length_modify] at hm ⊢
    exact h.lt m hm
  inj m hm k hk := by
    rw [List.length_modify] at hm hk
    exact h.inj m hm k hk
  slots m hm := by
    rw [List.length_modify] at hm
    rw [listed_modify change hn, Store.slots_modify change' (h.lt n hn)]
    by_cases same : m = n
    · rw [if_pos same, if_pos (congrArg place same)]
      exact changed
    · rw [if_neg same, if_neg fun hp => same (h.inj m hm n hn hp)]
      exact h.slots m hm

/-- The next builder gets the table that is added. -/
lemma newBuilder (h : Places rules place s) :
    Places (rules ++ [[]]) (Function.update place rules.length s.tables.length)
      s.newBuilder.2 := by
  have old {n : Nat} (hn : n < rules.length) :
      Function.update place rules.length s.tables.length n = place n :=
    Function.update_of_ne (Nat.ne_of_lt hn) _ _
  have new : Function.update place rules.length s.tables.length rules.length =
      s.tables.length := Function.update_self _ _ _
  have cases {n : Nat} (hn : n < (rules ++ [[]]).length) :
      n < rules.length ∨ n = rules.length := by
    rw [List.length_append, List.length_singleton] at hn
    omega
  -- Builders and tables grow by one at the same time, so the new number has a table of its own.
  constructor
  · intro n hn
    rw [Store.newBuilder, List.length_append, List.length_singleton]
    obtain hn | rfl := cases hn
    · rw [old hn]
      exact Nat.lt_succ_of_lt (h.lt n hn)
    · rw [new]
      exact Nat.lt_succ_self _
  · intro n hn m hm same
    obtain hn | rfl := cases hn
    · obtain hm | rfl := cases hm
      · rw [old hn, old hm] at same
        exact h.inj n hn m hm same
      · rw [old hn, new] at same
        exact absurd same (Nat.ne_of_lt (h.lt n hn))
    · obtain hm | rfl := cases hm
      · rw [new, old hm] at same
        exact absurd same.symm (Nat.ne_of_lt (h.lt m hm))
      · rfl
  · intro n hn
    rw [Store.slots_newBuilder, listed]
    obtain hn | rfl := cases hn
    · rw [List.getElem?_append_left hn, old hn]
      exact h.slots n hn
    · rw [List.getElem?_concat_length, new, Store.slots, List.getElem?_eq_none (Nat.le_refl _)]
      exact .nil

end Places

/-- The ledger stays true of what is on the shelves when there are more rules. -/
lemma Describes.grow (h : l.Describes place w) {store : Store}
    (places : Places rules place' store)
    (old : ∀ n < l.rules.length, n < rules.length ∧ place' n = place n ∧
      (l.entries n).length ≤ (listed rules n).length) :
    Describes { l with rules } place' { w with store } where
  places := places
  builders := h.builders.imp fun n b ⟨hn, hb⟩ => ⟨(old n hn).1, (old n hn).2.1.trans hb⟩
  grammars := h.grammars.imp fun n g ⟨hn, hg⟩ => ⟨(old n hn).1, (old n hn).2.1.trans hg⟩
  handles := h.handles.imp fun handle rule ⟨hn, hi, hr⟩ => by
    obtain ⟨lt, same, le⟩ := old handle.builder hn
    exact ⟨lt, Nat.lt_of_lt_of_le hi le, by rw [same]; exact hr⟩

/-- The rules of one builder change, and none of them goes. -/
lemma Describes.modify (h : l.Describes place w) {n : Nat} (hn : n < l.rules.length)
    (change : List Entry → List Entry) (change' : Table → Table)
    (changed : List.Forall₂ Entry.Describes (change (l.entries n))
      (change' (w.store.slots (place n))))
    (le : (l.entries n).length ≤ (change (l.entries n)).length) :
    Describes { l with rules := l.rules.modify n change } place
      { w with store := ⟨w.store.tables.modify (place n) change'⟩ } := by
  refine h.grow (h.places.modify hn changed) fun m hm => ⟨by rwa [List.length_modify], rfl, ?_⟩
  rw [listed_modify _ hn]
  split
  · next same => exact same ▸ le
  · exact Nat.le_refl _

/-- A new builder gets the next number and the next table. -/
lemma Describes.builder (h : l.Describes place w) (name : String) :
    (l.note (.builder name)).Describes (Function.update place l.rules.length w.store.tables.length)
      { w with
        store := w.store.newBuilder.2
        builders := w.builders.put name w.store.newBuilder.1 } := by
  have grown := h.grow h.places.newBuilder fun n hn =>
    ⟨?_, Function.update_of_ne (Nat.ne_of_lt hn) _ _, ?_⟩
  · refine { grown with builders := grown.builders.put name ⟨?_, Function.update_self _ _ _⟩ }
    rw [List.length_append, List.length_singleton]
    exact Nat.lt_succ_self _
  · rw [List.length_append]
    exact Nat.lt_add_right _ hn
  · refine Nat.le_of_eq (congrArg List.length ?_)
    rw [entries, listed, listed, List.getElem?_append_left hn]

/-- A declaration is written down where its slot is added. -/
lemma Describes.declare (h : l.Describes place w) {builder : String} {b : Builder}
    (hb : w.builders.get? builder = some b) (handle ruleName : String) :
    (l.note (.declare builder handle ruleName)).Describes place
      { w with
        store := (w.store.declare b ruleName).2
        handles := w.handles.put handle (w.store.declare b ruleName).1 } := by
  obtain ⟨n, hl, hn, table⟩ := h.builders.exists_get?_right hb
  have slots := h.places.slots n hn
  have longer : (l.entries n ++ [Entry.mk ruleName 0]).length = (l.entries n).length + 1 :=
    List.length_append
  have grown := h.modify hn (· ++ [⟨ruleName, 0⟩]) (· ++ [⟨ruleName, none⟩])
    (List.rel_append slots (.cons ⟨rfl, rfl⟩ .nil)) (by rw [longer]; exact Nat.le_succ _)
  rw [note, hl]
  rw [table] at grown
  refine { grown with handles := grown.handles.put handle ⟨?_, ?_, ?_⟩ }
  · rwa [List.length_modify]
  · have listed := listed_modify (· ++ [Entry.mk ruleName 0]) hn n
    rw [if_pos rfl] at listed
    exact (congrArg List.length listed).trans longer ▸ Nat.lt_succ_self _
  · rw [Store.declare, ← table, entries, slots.length_eq]

/-- Preparing a recipe is not written down. -/
lemma Describes.supplied (h : l.Describes place w) {supply : Supply}
    (hs : w.store.Supplied supply.store) : l.Describes place { w with toSupply := supply } :=
  { h with places := h.places.supplied hs }

/-- The slot that gets a definition has been given none. -/
lemma Describes.define (h : l.Describes place w) {builder handle : String} {recipe : Recipe}
    {rule : Rule} {b : Builder} {keeper : Keeper} {store : Store}
    (hr : w.handles.get? handle = some rule) (hd : w.store.define b rule keeper = .ok store) :
    (l.note (.define builder handle recipe)).Describes place { w with store } := by
  obtain ⟨known, hl, hn, _, rfl⟩ := h.handles.exists_get?_right hr
  obtain ⟨⟨owns, _⟩, undefined, rfl⟩ := Store.define_eq_ok hd
  have changed : List.Forall₂ Entry.Describes
      ((l.entries known.builder).modify known.index fun e =>
        { e with definitions := e.definitions + 1 })
      ((w.store.slots (place known.builder)).modify known.index
        ({ · with definition? := some keeper })) := by
    refine forall₂_modify (h.places.slots _ hn) fun e slot hs he => ⟨he.name, ?_⟩
    rw [Store.slot?, hs] at undefined
    rw [he.definitions, show slot.definition? = none from undefined]
    rfl
  have grown := h.modify hn _ _ changed (Nat.le_of_eq (List.length_modify _ _ _).symm)
  rw [note, hl]
  rw [show place known.builder = b.table from owns] at grown
  exact grown

/-- A step that succeeds keeps the ledger true of the workbench. -/
lemma Describes.does (h : l.Describes place w) {s : Step} {answer : Answer}
    (hd : Does w s answer w') : ∃ place', (l.note s).Describes place' w' := by
  cases hd with
  | builder name => exact ⟨_, h.builder name⟩
  | declare hb => exact ⟨place, h.declare hb _ _⟩
  | reference hb hr owns => exact ⟨place, { h with }⟩
  | keep hk => exact ⟨place, { h.supplied (Supply.realize_source hk).1 with }⟩
  | @define builder handle recipe b rule keeper supply store hb hr hk hd =>
    have supplied := h.supplied (Supply.realize_source hk).1
    exact ⟨place, supplied.define hr hd⟩
  | @build builder grammar b g hb hg =>
    obtain ⟨n, hl, hn, table⟩ := h.builders.exists_get?_right hb
    obtain ⟨_, rfl⟩ := Store.build_eq_ok hg
    rw [note, hl]
    exact ⟨place, h.places, h.builders.erase builder, h.grammars.put grammar ⟨hn, table⟩,
      h.handles⟩
  | rule hg hr owns => exact ⟨place, { h with }⟩
  | @clone grammar copy g hg =>
    obtain ⟨n, hl, hn⟩ := h.grammars.exists_get?_right hg
    rw [note, hl]
    exact ⟨place, h.places, h.builders, h.grammars.put copy hn, h.handles⟩
  | showBuilder hb => exact ⟨place, h⟩
  | showGrammar hg => exact ⟨place, h⟩
  | drop kind name =>
    cases kind with
    | builder => exact ⟨place, h.places, h.builders.erase name, h.grammars, h.handles⟩
    | grammar => exact ⟨place, h.places, h.builders, h.grammars.erase name, h.handles⟩
    | pattern => exact ⟨place, h.places, h.builders, h.grammars, h.handles⟩
  | parse hp => exact ⟨place, h⟩

/-- So does every step. -/
lemma Describes.step (h : l.Describes place w) (s : Step) :
    ∃ place', (l.follow s (w.step s).1).Describes place' (w.step s).2 := by
  obtain ⟨answer, w', hw, hd⟩ | ⟨fault, hw⟩ := w.step_cases s
  · rw [hw]
    exact h.does hd
  · rw [hw]
    cases s with
    | build builder grammar =>
      exact ⟨place, h.places, h.builders.erase builder, h.grammars, h.handles⟩
    | _ => exact ⟨place, h⟩

/-- What is written down of the steps describes where they lead. -/
lemma Describes.run (h : l.Describes place w) (steps : List Step) :
    ∃ place', Describes ((steps.zip (w.run steps).1).foldl (fun l call => l.follow call.1 call.2) l)
      place' (w.run steps).2 := by
  induction steps generalizing l place w with
  | nil => exact ⟨place, h⟩
  | cons s steps ih =>
    obtain ⟨place', h'⟩ := h.step s
    exact ih h'

/-- The ledger of a run is true of the workbench that it leads to. -/
lemma exists_describes (steps : List Step) :
    ∃ place, (ofSteps steps).Describes place (Workbench.empty.run steps).2 := by
  have start : empty.Describes id .empty :=
    ⟨⟨nofun, nofun, nofun⟩, .nil, .nil, .nil⟩
  exact start.run steps

/-- A handle belongs to the table of its builder and to no other. -/
lemma Describes.owns_iff (h : l.Describes place w) {n table : Nat}
    (hn : n < l.rules.length ∧ place n = table) {name : String} {known : Handle} {rule : Rule}
    (hk : l.handles.get? name = some known) (hr : w.handles.get? name = some rule) :
    w.store.Owns table rule ↔ known.builder = n := by
  obtain ⟨rule', hr', lt, hi, rfl⟩ := h.handles.exists_get? hk
  obtain rfl := Option.some.inj (hr.symm.trans hr')
  obtain ⟨hn, rfl⟩ := hn
  refine ⟨fun owns => h.places.inj _ lt _ hn owns.1, fun same => ⟨congrArg place same, ?_⟩⟩
  rw [← same, ← (h.places.slots _ lt).length_eq]
  exact hi

/-- A rule is known to be defined as often as its slot has a definition. -/
lemma Describes.definitions_eq (h : l.Describes place w) {name : String} {known : Handle}
    {rule : Rule} (hk : l.handles.get? name = some known)
    (hr : w.handles.get? name = some rule) :
    l.definitions known = ((w.store.slot? rule.id).bind Slot.definition?).toList.length := by
  obtain ⟨rule', hr', lt, hi, rfl⟩ := h.handles.exists_get? hk
  obtain rfl := Option.some.inj (hr.symm.trans hr')
  have rel := rel_getElem? (h.places.slots _ lt) known.index
  rw [definitions, Store.slot?, entries]
  generalize (listed l.rules known.builder)[known.index]? = e at rel ⊢
  generalize (w.store.slots (place known.builder))[known.index]? = slot at rel ⊢
  cases rel with
  | none => rfl
  | some he => exact he.definitions

/-- The names of the slots are those of the entries. -/
lemma names_eq {entries : List Entry} {slots : Table}
    (h : List.Forall₂ Entry.Describes entries slots) :
    slots.map Slot.name = entries.map Entry.name := by
  induction h with
  | nil => rfl
  | cons he _ ih => rw [List.map_cons, List.map_cons, he.name, ih]

/-- The first rule without a definition is the first slot without one. -/
lemma find?_undefined {entries : List Entry} {slots : Table}
    (h : List.Forall₂ Entry.Describes entries slots) :
    Option.Rel Entry.Describes (entries.find? (·.definitions = 0))
      (slots.find? (·.definition?.isNone)) := by
  induction h with
  | nil => exact .none
  | @cons e slot _ _ he _ ih =>
    obtain ⟨name, definition?⟩ := slot
    rw [List.find?_cons, List.find?_cons, he.definitions]
    cases definition? with
    | none => exact .some he
    | some keeper => exact ih

/-- What a ledger tells of a workbench and of the steps that come next. -/
structure Tells (l : Ledger) (w : Workbench) : Prop where
  /-- No rule has been given more than one definition. -/
  once : ∀ n, ∀ e ∈ l.entries n, e.definitions ≤ 1
  /-- A definition stays, and so does the name of its rule, whatever comes next. -/
  stays : ∀ steps place slot, w.store.slot? place = some slot →
    ∃ slot', (w.run steps).2.store.slot? place = some slot' ∧ slot'.name = slot.name ∧
      ∀ keeper, slot.definition? = some keeper → slot'.definition? = some keeper
  /-- A builder knows the rules that it has declared, by their handles. -/
  reference : ∀ builder handle pattern n known, l.builders.get? builder = some n →
    l.handles.get? handle = some known →
    (w.step (.reference builder handle pattern)).1 =
      if known.builder = n then .ok .done else .error (.grammar (.unknownRule known.name))
  /-- A grammar knows the rules that its builder has declared. -/
  rule : ∀ grammar handle pattern n known, l.grammars.get? grammar = some n →
    l.handles.get? handle = some known →
    (w.step (.rule grammar handle pattern)).1 =
      if known.builder = n then .ok .done else .error (.grammar (.unknownRule known.name))
  /-- A rule is defined by its own builder, and if it has not been before. -/
  define : ∀ builder handle recipe n known keeper supply, l.builders.get? builder = some n →
    l.handles.get? handle = some known →
    w.toSupply.realize w.patterns.get? recipe = .ok (keeper, supply) →
    (w.step (.define builder handle recipe)).1 =
      if known.builder ≠ n then .error (.grammar (.unknownRule known.name))
      else if 0 < l.definitions known then .error (.grammar (.redefined known.name))
      else .ok .done
  /-- Then it has the definition that it was given. -/
  defined : ∀ builder handle recipe keeper supply answer,
    w.toSupply.realize w.patterns.get? recipe = .ok (keeper, supply) →
    (w.step (.define builder handle recipe)).1 = .ok answer →
    ∃ rule slot, w.handles.get? handle = some rule ∧
      (w.step (.define builder handle recipe)).2.store.slot? rule.id = some slot ∧
      slot.definition? = some keeper
  /-- A grammar is built when all rules are defined, and has them in order of declaration. -/
  build : ∀ builder grammar n, l.builders.get? builder = some n →
    (w.step (.build builder grammar)).1 =
      match (l.entries n).find? (·.definitions = 0) with
      | some e => .error (.grammar (.undefined e.name))
      | none => .ok (.built ((l.entries n).map Entry.name))
  /-- It goes on to have the rules in this order. -/
  showGrammar : ∀ grammar n, l.grammars.get? grammar = some n →
    (w.step (.showGrammar grammar)).1 =
      .ok (.shown (Workbench.describe "Grammar" ((l.entries n).map Entry.name)))
  /-- What fails changes nothing, but for a builder that could not be built. All steps are alike in
  this, because an attempt that fails has no workbench to go on with (`Workbench.attempt`). -/
  atomic : ∀ s fault, (w.step s).1 = .error fault →
    (∀ builder grammar, s ≠ .build builder grammar) → (w.step s).2 = w

namespace Describes

/-- A slot has one definition at most, and so has its entry. -/
lemma once (h : l.Describes place w) {n : Nat} {e : Entry} (he : e ∈ l.entries n) :
    e.definitions ≤ 1 := by
  by_cases hn : n < l.rules.length
  · obtain ⟨i, hi⟩ := List.mem_iff_getElem?.1 he
    have rel := rel_getElem? (h.places.slots n hn) i
    rw [show (listed l.rules n)[i]? = some e from hi] at rel
    generalize (w.store.slots (place n))[i]? = slot at rel
    cases rel with
    | @some _ slot described =>
      rw [described.definitions]
      cases slot.definition? with
      | none => exact Nat.zero_le 1
      | some keeper => exact Nat.le_refl 1
  · rw [entries, listed, List.getElem?_eq_none (Nat.le_of_not_lt hn)] at he
    cases he

variable {builder grammar handle pattern : String} {recipe : Recipe} {n : Nat} {known : Handle}
  {keeper : Keeper} {supply : Supply}

/-- A reference is given out if the ledger has the rule under this builder. -/
lemma answer_reference (h : l.Describes place w) (hb : l.builders.get? builder = some n)
    (hk : l.handles.get? handle = some known) :
    (w.step (.reference builder handle pattern)).1 =
      if known.builder = n then .ok .done else .error (.grammar (.unknownRule known.name)) := by
  obtain ⟨b, hb', hn⟩ := h.builders.exists_get? hb
  obtain ⟨rule, hr, _, _, hrule⟩ := h.handles.exists_get? hk
  have owns := h.owns_iff hn hk hr
  simp only [Workbench.step, Workbench.attempt, Workbench.look, hb', hr, Store.reference,
    bind, Except.bind, pure, Except.pure]
  by_cases same : known.builder = n
  · rw [if_pos same, if_pos (owns.2 same)]
    rfl
  · rw [if_neg same, if_neg fun ho => same (owns.1 ho), hrule]
    rfl

/-- A rule is given out if the ledger has it under the builder of the grammar. -/
lemma answer_rule (h : l.Describes place w) (hg : l.grammars.get? grammar = some n)
    (hk : l.handles.get? handle = some known) :
    (w.step (.rule grammar handle pattern)).1 =
      if known.builder = n then .ok .done else .error (.grammar (.unknownRule known.name)) := by
  obtain ⟨g, hg', hn⟩ := h.grammars.exists_get? hg
  obtain ⟨rule, hr, _, _, hrule⟩ := h.handles.exists_get? hk
  have owns := h.owns_iff hn hk hr
  simp only [Workbench.step, Workbench.attempt, Workbench.look, hg', hr, Store.rule,
    bind, Except.bind, pure, Except.pure]
  by_cases same : known.builder = n
  · rw [if_pos same, if_pos (owns.2 same)]
    rfl
  · rw [if_neg same, if_neg fun ho => same (owns.1 ho), hrule]
    rfl

/-- A definition is checked for its builder first, and then for an earlier one. -/
lemma answer_define (h : l.Describes place w) (hb : l.builders.get? builder = some n)
    (hk : l.handles.get? handle = some known)
    (realized : w.toSupply.realize w.patterns.get? recipe = .ok (keeper, supply)) :
    (w.step (.define builder handle recipe)).1 =
      if known.builder ≠ n then .error (.grammar (.unknownRule known.name))
      else if 0 < l.definitions known then .error (.grammar (.redefined known.name))
      else .ok .done := by
  obtain ⟨b, hb', hn⟩ := h.builders.exists_get? hb
  obtain ⟨rule, hr, _, _, hrule⟩ := h.handles.exists_get? hk
  -- What is needed for the recipe is added to the store before the handle is looked at.
  have later := h.supplied (Supply.realize_source realized).1
  have owns := later.owns_iff hn hk hr
  have definitions := later.definitions_eq hk hr
  simp only [Workbench.step, Workbench.attempt, Workbench.look, hb', hr, Workbench.realize,
    realized, Store.define, bind, Except.bind, pure, Except.pure]
  by_cases same : known.builder = n
  · rw [if_neg (not_not_intro same), if_pos (owns.2 same), definitions]
    generalize (supply.store.slot? rule.id).bind Slot.definition? = definition?
    cases definition? with
    | none => rfl
    | some keeper => rw [hrule]; rfl
  · rw [if_pos same, if_neg fun ho => same (owns.1 ho), hrule]
    rfl

/-- A builder is finished if the ledger has no rule without a definition. -/
lemma answer_build (h : l.Describes place w) (hb : l.builders.get? builder = some n) :
    (w.step (.build builder grammar)).1 =
      match (l.entries n).find? (·.definitions = 0) with
      | some e => .error (.grammar (.undefined e.name))
      | none => .ok (.built ((l.entries n).map Entry.name)) := by
  obtain ⟨b, hb', hn, table⟩ := h.builders.exists_get? hb
  have slots := h.places.slots n hn
  have rel := find?_undefined slots
  rw [table] at slots rel
  simp only [Workbench.step, Workbench.attempt, Workbench.look, hb', Store.build, entries,
    bind, Except.bind, pure, Except.pure]
  generalize (listed l.rules n).find? (·.definitions = 0) = e at rel ⊢
  generalize (w.store.slots b.table).find? (·.definition?.isNone) = slot at rel ⊢
  cases rel with
  | none =>
    exact congrArg (fun names => Except.ok (Answer.built names)) (names_eq slots)
  | some he =>
    exact congrArg (fun name => Except.error (Fault.grammar (.undefined name))) he.name.symm

/-- A grammar shows the names in the ledger. -/
lemma answer_showGrammar (h : l.Describes place w) (hg : l.grammars.get? grammar = some n) :
    (w.step (.showGrammar grammar)).1 =
      .ok (.shown (Workbench.describe "Grammar" ((l.entries n).map Entry.name))) := by
  obtain ⟨g, hg', hn, table⟩ := h.grammars.exists_get? hg
  have names : w.store.ruleNames g.table = (l.entries n).map Entry.name := by
    rw [Store.ruleNames, ← table]
    exact names_eq (h.places.slots n hn)
  rw [← names]
  simp only [Workbench.step, Workbench.attempt, Workbench.look, hg']
  rfl

end Describes

end Ledger

namespace Workbench

variable {w : Workbench}

/-- After a definition has been accepted, the rule has it. -/
lemma definition?_of_step_define {builder handle : String} {recipe : Recipe} {keeper : Keeper}
    {supply : Supply} {answer : Answer}
    (realized : w.toSupply.realize w.patterns.get? recipe = .ok (keeper, supply))
    (h : (w.step (.define builder handle recipe)).1 = .ok answer) :
    ∃ rule slot, w.handles.get? handle = some rule ∧
      (w.step (.define builder handle recipe)).2.store.slot? rule.id = some slot ∧
      slot.definition? = some keeper := by
  obtain ⟨_, w', hw, hd⟩ | ⟨_, hw⟩ := w.step_cases (.define builder handle recipe)
  · rw [hw]
    cases hd with
    | @define _ _ _ b rule keeper' supply' store hb hr hk hd =>
      obtain ⟨rfl, rfl⟩ := Prod.mk.inj (Except.ok.inj (realized.symm.trans hk))
      obtain ⟨slot, hs, hdef⟩ := Store.slot?_of_define hd
      exact ⟨rule, slot, hr, hs, hdef⟩
  · rw [hw] at h
    cases h

/-- What fails changes nothing, but for a builder that could not be built. -/
lemma step_eq_of_error {s : Step} {fault : Fault} (h : (w.step s).1 = .error fault)
    (hs : ∀ builder grammar, s ≠ .build builder grammar) : (w.step s).2 = w := by
  obtain ⟨_, _, hw, _⟩ | ⟨_, hw⟩ := w.step_cases s
  · rw [hw] at h
    cases h
  · rw [hw]
    cases s with
    | build builder grammar => exact absurd rfl (hs builder grammar)
    | _ => rfl

/-- After any steps, the ledger of these steps tells what the next ones answer. -/
theorem ledger_tells (steps : List Step) :
    (Ledger.ofSteps steps).Tells (Workbench.empty.run steps).2 := by
  obtain ⟨place, h⟩ := Ledger.exists_describes steps
  exact {
    once := fun _ _ he => h.once he
    stays := fun steps place slot hs => (run_extends _ steps) place slot hs
    reference := fun _ _ _ _ _ hb hk => h.answer_reference hb hk
    rule := fun _ _ _ _ _ hg hk => h.answer_rule hg hk
    define := fun _ _ _ _ _ _ _ hb hk realized => h.answer_define hb hk realized
    defined := fun _ _ _ _ _ _ realized ha => definition?_of_step_define realized ha
    build := fun _ _ _ hb => h.answer_build hb
    showGrammar := fun _ _ hg => h.answer_showGrammar hg
    atomic := fun _ _ ha hs => step_eq_of_error ha hs }

/-- Two builders declare a rule of the same name, and one of them defines it. -/
def namesakeSteps : List Step :=
  [.builder "a", .builder "b", .declare "a" "of a" "item", .declare "b" "of b" "item",
    .define "a" "of a" (.char 'x')]

/-- The handles have the same place and name, and yet each builder knows its own only. -/
theorem ledger_tells_namesakes :
    ((empty.run namesakeSteps).2.step (.reference "a" "of b" "p")).1 =
      .error (.grammar (.unknownRule "item")) ∧
    ((empty.run namesakeSteps).2.step (.define "a" "of b" (.char 'y'))).1 =
      .error (.grammar (.unknownRule "item")) ∧
    ((empty.run namesakeSteps).2.step (.define "a" "of a" (.char 'y'))).1 =
      .error (.grammar (.redefined "item")) ∧
    ((empty.run namesakeSteps).2.step (.build "b" "g")).1 =
      .error (.grammar (.undefined "item")) ∧
    ((empty.run namesakeSteps).2.step (.build "a" "g")).1 = .ok (.built ["item"]) :=
  ⟨(ledger_tells namesakeSteps).reference "a" "of b" "p" 0 ⟨1, 0, "item"⟩ rfl rfl,
    (ledger_tells namesakeSteps).define "a" "of b" (.char 'y') 0 ⟨1, 0, "item"⟩ _ _ rfl rfl rfl,
    (ledger_tells namesakeSteps).define "a" "of a" (.char 'y') 0 ⟨0, 0, "item"⟩ _ _ rfl rfl rfl,
    (ledger_tells namesakeSteps).build "b" "g" 1 rfl,
    (ledger_tells namesakeSteps).build "a" "g" 0 rfl⟩

end Workbench

end Recognizer
