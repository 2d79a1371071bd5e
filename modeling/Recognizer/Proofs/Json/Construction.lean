import Recognizer.Json.Entry
import Recognizer.Proofs.Grammar.Links
import Recognizer.Proofs.Json.Regular

/-!
# JSON grammars in any store

The construction of a JSON grammar always succeeds. It adds one finished table to the store, whose
rules refer to each other by weak links only (`Json.build_eq`, `Json.weak_of_mem_rulesAt`). So does
preparing an entry point (`Json.Entry.prepare_eq`), whose pattern has strong links into that table
and no others.
-/

namespace Recognizer

namespace Store

/-- The last table is the one that was added. -/
lemma slots_last (tables : List Table) (table : Table) :
    (mk (tables ++ [table])).slots tables.length = table := by
  rw [slots, List.getElem?_concat_length, Option.getD_some]

/-- A change to the last table leaves those before it. -/
lemma modify_last (tables : List Table) (table : Table) (change : Table → Table) :
    (tables ++ [table]).modify tables.length change = tables ++ [change table] := by
  induction tables with
  | nil => rfl
  | cons _ tables ih => simp [ih]

/-- A rule declared in the last table comes behind its others. -/
lemma declare_last (tables : List Table) (table : Table) (name : String) :
    (mk (tables ++ [table])).declare ⟨tables.length⟩ name =
      (⟨⟨tables.length, table.length⟩, name⟩, ⟨tables ++ [table ++ [⟨name, none⟩]]⟩) := by
  rw [declare, slots_last, modify_last]

/-- The last table owns the handles of its rules. -/
lemma owns_last_iff {tables : List Table} {table : Table} {rule : Rule} :
    (mk (tables ++ [table])).Owns tables.length rule ↔
      rule.id.table = tables.length ∧ rule.id.index < table.length := by
  rw [Owns, slots_last]

end Store

namespace Json

/-- The rules of the grammar as table number `n`. -/
def rulesAt (o : Options) (n : Nat) : Table :=
  [⟨"value", some (.ofPattern (valueOf o (.refer (.weak ⟨n, 1⟩)) (.refer (.weak ⟨n, 2⟩))))⟩,
    ⟨"object", some (.ofPattern (objectOf o (.refer (.weak ⟨n, 0⟩))))⟩,
    ⟨"array", some (.ofPattern (arrayOf (.refer (.weak ⟨n, 0⟩))))⟩]

/-- In any store, the construction adds the grammar as the last table. -/
theorem build_eq (o : Options) (s : Store) :
    build o s = .ok (⟨o, .refer (.strong ⟨s.tables.length, 0⟩),
      .refer (.strong ⟨s.tables.length, 1⟩), .refer (.strong ⟨s.tables.length, 2⟩),
      documentOf o (.refer (.strong ⟨s.tables.length, 0⟩))⟩,
      ⟨s.tables ++ [rulesAt o s.tables.length]⟩) := by
  obtain ⟨tables⟩ := s
  simp only [build, Store.newBuilder, Store.declare_last, List.nil_append, List.length_nil,
    List.length_cons, List.cons_append]
  simp [rulesAt, Store.reference, Store.define, Store.owns_last_iff, Store.slot?, Store.slots_last,
    Store.modify_last, Store.build, Store.rule, bind, Except.bind, pure, Except.pure]

/-- The rules of the grammar are defined by weak links between them. -/
lemma weak_of_mem_rulesAt {o : Options} {n : Nat} {slot : Slot} (h : slot ∈ rulesAt o n) :
    ∃ keeper, slot.definition? = some keeper ∧
      ∀ link ∈ keeper.pattern.references, ∃ i < 3, link = .weak ⟨n, i⟩ := by
  have weak (i : Nat) (hi : i < 3) :
      (Pattern.refer (.weak ⟨n, i⟩)).RegularOver fun link : Link => ∃ i < 3, link = .weak ⟨n, i⟩ :=
    .refer ⟨i, hi, rfl⟩
  simp only [rulesAt, List.mem_cons, List.not_mem_nil, or_false] at h
  rcases h with rfl | rfl | rfl
  · have regular := regular_valueOf o (weak 1 (by omega)) (weak 2 (by omega))
    exact ⟨_, rfl, fun link hl => regular.of_mem_references hl⟩
  · have regular := regular_objectOf o (weak 0 (by omega))
    exact ⟨_, rfl, fun link hl => regular.of_mem_references hl⟩
  · have regular := regular_arrayOf (weak 0 (by omega))
    exact ⟨_, rfl, fun link hl => regular.of_mem_references hl⟩

namespace Entry

/-- The pattern of an entry point whose grammar is table number `n`. -/
def patternAt (o : Options) (n : Nat) : Entry → Pattern Link
  | number => Json.number
  | string => Json.string
  | strictString => Json.strictString
  | whitespace => Json.whitespace
  | value => .refer (.strong ⟨n, 0⟩)
  | object => .refer (.strong ⟨n, 1⟩)
  | array => .refer (.strong ⟨n, 2⟩)
  | document => documentOf o (.refer (.strong ⟨n, 0⟩))

/-- The table that an entry point needs, if it needs one. -/
def tablesAt (o : Options) (n : Nat) : Entry → List Table
  | number | string | strictString | whitespace => []
  | value | object | array | document => [rulesAt o n]

/-- Preparing an entry point succeeds and adds what it needs behind the tables of the store. -/
theorem prepare_eq (o : Options) (s : Store) (entry : Entry) :
    entry.prepare o s = .ok ⟨entry.patternAt o s.tables.length,
      ⟨s.tables ++ entry.tablesAt o s.tables.length⟩⟩ := by
  cases entry with
  | value => rw [prepare, build_eq]; rfl
  | object => rw [prepare, build_eq]; rfl
  | array => rw [prepare, build_eq]; rfl
  | document => rw [prepare, build_eq]; rfl
  | _ => rw [prepare, tablesAt, List.append_nil]; rfl

/-- The pattern of an entry point keeps nothing but the grammar that it needs. -/
lemma strong_of_mem_patternAt {o : Options} {n : Nat} {entry : Entry} {link : Link}
    (h : link ∈ (entry.patternAt o n).references) :
    entry.tablesAt o n = [rulesAt o n] ∧ ∃ i < 3, link = .strong ⟨n, i⟩ := by
  cases entry with
  | number => cases h
  | string => cases h
  | strictString => cases h
  | whitespace => cases h
  | value => exact ⟨rfl, 0, by omega, List.mem_singleton.1 h⟩
  | object => exact ⟨rfl, 1, by omega, List.mem_singleton.1 h⟩
  | array => exact ⟨rfl, 2, by omega, List.mem_singleton.1 h⟩
  | document =>
    have regular : (documentOf o (.refer (.strong ⟨n, 0⟩))).RegularOver
        fun link : Link => ∃ i < 3, link = .strong ⟨n, i⟩ :=
      regular_documentOf o (.refer ⟨0, by omega, rfl⟩)
    exact ⟨rfl, regular.of_mem_references h⟩

end Entry

end Json

end Recognizer
