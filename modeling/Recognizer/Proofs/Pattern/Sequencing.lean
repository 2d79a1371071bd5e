import Recognizer.Proofs.Pattern.Elements

/-!
# Sequences and their parts

A sequence matches if all of its parts match, each on what the one before it left, and consumes what
they consume. Otherwise it rejects as the first part that rejects does, counted from the start of
the sequence. The same is said of a sequence under way (`Plan.reaches_ofParts_append_iff`), so that
it does not matter how the parts are grouped: a sequence within a sequence counts its rejections
from its own start first, and the bytes before that start are added (`Goal.yields_concat_iff`).
-/

namespace Recognizer

open Text

variable {ρ : Type} {definitions : ρ → Resolution ρ} {input s s' : Slice} {o : Outcome}
  {e : Rejection} {t cs : List Char} {ps qs parts : List (Pattern ρ)} {pieces : List Slice}

/-- The patterns have the same outcomes on the input. -/
def Pattern.AgreesOn (definitions : ρ → Resolution ρ) (input : Slice) (p q : Pattern ρ) : Prop :=
  ∀ o, (Goal.apply p input).Yields definitions o ↔ (Goal.apply q input).Yields definitions o

/-- Agreement goes both ways. -/
lemma Pattern.AgreesOn.symm {p q : Pattern ρ} (h : p.AgreesOn definitions input q) :
    q.AgreesOn definitions input p :=
  fun o => (h o).symm

/-- The patterns match one after the other and consume these pieces, the last one leaving `s'`. -/
inductive Passes (definitions : ρ → Resolution ρ) :
    List (Pattern ρ) → List Slice → Slice → Slice → Prop where
  | nil (s : Slice) : Passes definitions [] [] s s
  | cons {p : Pattern ρ} {ps : List (Pattern ρ)} {pieces : List Slice} {s c s' s'' : Slice} :
    (Goal.apply p s).Yields definitions (.matched c s') → Passes definitions ps pieces s' s'' →
    Passes definitions (p :: ps) (c :: pieces) s s''

/-- The patterns match one after the other and consume these pieces, up to one that rejects `s'`. -/
inductive Fails (definitions : ρ → Resolution ρ) :
    List (Pattern ρ) → List Slice → Slice → Slice → Rejection → Prop where
  | here {p : Pattern ρ} {s : Slice} {e : Rejection} (ps : List (Pattern ρ)) :
    (Goal.apply p s).Yields definitions (.rejected e) → Fails definitions (p :: ps) [] s s e
  | later {p : Pattern ρ} {ps : List (Pattern ρ)} {pieces : List Slice} {s c s' s'' : Slice}
    {e : Rejection} :
    (Goal.apply p s).Yields definitions (.matched c s') → Fails definitions ps pieces s' s'' e →
    Fails definitions (p :: ps) (c :: pieces) s s'' e

/-- A sequence that fails has a part that rejects behind others that match. -/
lemma Fails.exists_split (h : Fails definitions parts pieces s s' e) :
    ∃ before p after, parts = before ++ p :: after ∧ Passes definitions before pieces s s' ∧
      (Goal.apply p s').Yields definitions (.rejected e) := by
  induction h with
  | here ps rejects => exact ⟨[], _, ps, rfl, .nil _, rejects⟩
  | later yields _ ih =>
    obtain ⟨before, p, after, rfl, passes, rejects⟩ := ih
    exact ⟨_ :: before, p, after, rfl, .cons yields passes, rejects⟩

/-- A part that rejects behind others that match makes the sequence fail. -/
lemma Passes.fails {p : Pattern ρ} (h : Passes definitions ps pieces s s')
    (rejects : (Goal.apply p s').Yields definitions (.rejected e)) (after : List (Pattern ρ)) :
    Fails definitions (ps ++ p :: after) pieces s s' e := by
  induction h with
  | nil s => exact .here after rejects
  | cons yields _ ih => exact .later yields (ih rejects)

/-- The pieces are the text before what is left. -/
lemma Passes.cut (h : Passes definitions ps pieces s s') (hp : ∀ p ∈ ps, p.Honest definitions)
    (spells : s.Spells cs) : ∃ bs, s.Cut s' (pieces.flatMap Slice.chars) bs := by
  induction h generalizing cs with
  | nil s => exact ⟨cs, .refl spells⟩
  | cons yields _ ih =>
    obtain ⟨first, others⟩ := List.forall_mem_cons.1 hp
    obtain ⟨bs, cut⟩ := first.cut spells yields
    obtain ⟨bs', cut'⟩ := ih others cut.rest
    rw [List.flatMap_cons]
    exact ⟨bs', cut.trans cut'⟩

/-- The part that rejects does so at a tail. -/
lemma Fails.hasTail (h : Fails definitions ps pieces s s' e) (hp : ∀ p ∈ ps, p.Honest definitions)
    (spells : s.Spells cs) : s.HasTail s' := by
  obtain ⟨before, p, after, rfl, passes, _⟩ := h.exists_split
  obtain ⟨bs, cut⟩ := passes.cut (List.forall_mem_append.1 hp).1 spells
  exact cut.tail

/-- A rejection that is counted from the start of a tail and then from the start of the input. -/
lemma Rejection.shifted_shifted (e : Rejection) (h : input.HasTail s) (h' : s.HasTail s') :
    (e.shifted (s.progress s')).shifted (input.progress s) = e.shifted (input.progress s') := by
  rw [h.progress_trans h', Nat.add_comm]
  simp only [shifted, Nat.add_assoc]

/-- A sequence under way comes to its later parts if the earlier ones match, and to the end with the
first of these that rejects. -/
lemma Plan.reaches_ofParts_append_iff :
    (ofParts input (ps ++ qs) s).Reaches (Goal.Yields definitions) o ↔
      (∃ pieces s', Passes definitions ps pieces s s' ∧
        (ofParts input qs s').Reaches (Goal.Yields definitions) o) ∨
      ∃ pieces s' e, Fails definitions ps pieces s s' e ∧
        o = .rejected (e.shifted (input.progress s')) := by
  induction ps generalizing s with
  | nil =>
    constructor
    · intro h
      exact .inl ⟨[], s, .nil s, h⟩
    · rintro (⟨_, _, passes, h⟩ | ⟨_, _, _, fails, _⟩)
      · cases passes
        exact h
      · cases fails
  | cons p ps ih =>
    constructor
    · rintro ⟨o', yields, h⟩
      cases o' with
      | rejected e => exact .inr ⟨[], s, e, .here ps yields, h.symm⟩
      | matched c s' =>
        obtain ⟨pieces, s'', passes, h⟩ | ⟨pieces, s'', e, fails, rfl⟩ := ih.1 h
        · exact .inl ⟨_, s'', .cons yields passes, h⟩
        · exact .inr ⟨_, s'', e, .later yields fails, rfl⟩
    · rintro (⟨_, s'', passes, h⟩ | ⟨_, s'', e, fails, rfl⟩)
      · cases passes with
        | cons yields passes => exact ⟨_, yields, ih.2 (.inl ⟨_, s'', passes, h⟩)⟩
      · cases fails with
        | here _ rejects => exact ⟨_, rejects, rfl⟩
        | later yields fails => exact ⟨_, yields, ih.2 (.inr ⟨_, s'', e, fails, rfl⟩)⟩

/-- A sequence is followed to its end and rebuilt from what is left, or a part of it rejects. -/
lemma Pattern.yields_concat_iff_passes :
    (Goal.apply (.concat parts) input).Yields definitions o ↔
      (∃ pieces s, Passes definitions parts pieces input s ∧ o = .fromRemainder input s) ∨
      ∃ pieces s e, Fails definitions parts pieces input s e ∧
        o = .rejected (e.shifted (input.progress s)) := by
  have h : (Plan.ofParts input (parts ++ []) input).Reaches (Goal.Yields definitions) o ↔ _ :=
    Plan.reaches_ofParts_append_iff
  rw [List.append_nil] at h
  rw [Goal.yields_iff, Goal.plan, Pattern.plan, h]
  simp only [Plan.ofParts, Plan.Reaches, eq_comm]

/-- The outcomes of a sequence, in terms of those of its parts. -/
inductive Pattern.Joins (definitions : ρ → Resolution ρ) (parts : List (Pattern ρ))
    (input : Slice) : Outcome → Prop where
  /-- All parts match, and the text consumed is that of their pieces. -/
  | matched {pieces : List Slice} {consumed remainder : Slice} :
    Passes definitions parts pieces input remainder →
    consumed.chars = pieces.flatMap Slice.chars →
    input.splitAt? consumed.size = some (consumed, remainder) →
    Joins definitions parts input (.matched consumed remainder)
  /-- A part rejects behind the pieces of all parts before it. -/
  | rejected {before : List (Pattern ρ)} {p : Pattern ρ} {after : List (Pattern ρ)}
    {pieces : List Slice} {s : Slice} {e : Rejection} : parts = before ++ p :: after →
    Passes definitions before pieces input s → (Goal.apply p s).Yields definitions (.rejected e) →
    Joins definitions parts input (.rejected
      { cause := e.cause
        offset := e.offset + byteLength (pieces.flatMap Slice.chars)
        context := e.context })

namespace Pattern

/-- The outcomes of a sequence are those that its parts join to. -/
lemma yields_concat_iff_joins (hp : ∀ p ∈ parts, p.Honest definitions) (spells : input.Spells t) :
    (Goal.apply (.concat parts) input).Yields definitions o ↔
      Joins definitions parts input o := by
  rw [yields_concat_iff_passes]
  constructor
  · rintro (⟨pieces, s, passes, rfl⟩ | ⟨pieces, s, e, fails, rfl⟩)
    · obtain ⟨bs, cut⟩ := passes.cut hp spells
      obtain ⟨c, eq, _⟩ := cut.tail.exists_matched
      obtain ⟨chars, split⟩ := cut.matched eq
      rw [eq]
      exact .matched passes chars split
    · obtain ⟨before, p, after, rfl, passes, rejects⟩ := fails.exists_split
      obtain ⟨bs, cut⟩ := passes.cut (List.forall_mem_append.1 hp).1 spells
      rw [cut.progress]
      exact .rejected rfl passes rejects
  · intro h
    cases h with
    | @matched pieces consumed remainder passes _ split =>
      obtain ⟨c, eq, split'⟩ := Slice.HasTail.exists_matched ⟨_, _, split⟩
      refine .inl ⟨pieces, remainder, passes, ?_⟩
      have progress := Slice.progress_of_splitAt? split
      rw [← Slice.progress_of_splitAt? split', progress, split] at split'
      cases split'
      exact eq.symm
    | @rejected before p after pieces s e parts_eq passes rejects =>
      subst parts_eq
      obtain ⟨bs, cut⟩ := passes.cut (List.forall_mem_append.1 hp).1 spells
      refine .inr ⟨pieces, s, e, passes.fails rejects after, ?_⟩
      rw [cut.progress]
      rfl

/-- At a tail of the input, a sequence as the next part goes on as its own parts do. -/
lemma reaches_ofParts_concat_iff (hp : ∀ p ∈ ps, p.Honest definitions) (tail : input.HasTail s)
    (spells : s.Spells cs) :
    (Plan.ofParts input (.concat ps :: qs) s).Reaches (Goal.Yields definitions) o ↔
      (Plan.ofParts input (ps ++ qs) s).Reaches (Goal.Yields definitions) o := by
  rw [Plan.reaches_ofParts_append_iff]
  constructor
  · rintro ⟨o', yields, h⟩
    obtain ⟨pieces, s', passes, rfl⟩ | ⟨pieces, s', e, fails, rfl⟩ :=
      yields_concat_iff_passes.1 yields
    · obtain ⟨bs, cut⟩ := passes.cut hp spells
      obtain ⟨c, eq, _⟩ := cut.tail.exists_matched
      rw [eq] at h
      exact .inl ⟨pieces, s', passes, h⟩
    · -- The inner sequence counts from `s`, and the outer one adds the bytes before `s`.
      have tail' := fails.hasTail hp spells
      refine .inr ⟨pieces, s', e, fails, ?_⟩
      rw [← e.shifted_shifted tail tail']
      exact h.symm
  · rintro (⟨pieces, s', passes, h⟩ | ⟨pieces, s', e, fails, rfl⟩)
    · obtain ⟨bs, cut⟩ := passes.cut hp spells
      obtain ⟨c, eq, _⟩ := cut.tail.exists_matched
      refine ⟨.matched c s', ?_, h⟩
      exact yields_concat_iff_passes.2 (.inl ⟨pieces, s', passes, eq.symm⟩)
    · have tail' := fails.hasTail hp spells
      refine ⟨_, yields_concat_iff_passes.2 (.inr ⟨pieces, s', e, fails, rfl⟩), ?_⟩
      rw [← e.shifted_shifted tail tail']
      rfl

/-- The same behind other parts. -/
lemma reaches_ofParts_group_iff {xs ys zs : List (Pattern ρ)}
    (hp : ∀ p ∈ xs ++ ys, p.Honest definitions) (tail : input.HasTail s) (spells : s.Spells cs) :
    (Plan.ofParts input (xs ++ .concat ys :: zs) s).Reaches (Goal.Yields definitions) o ↔
      (Plan.ofParts input (xs ++ (ys ++ zs)) s).Reaches (Goal.Yields definitions) o := by
  obtain ⟨before, group⟩ := List.forall_mem_append.1 hp
  rw [Plan.reaches_ofParts_append_iff, Plan.reaches_ofParts_append_iff]
  refine or_congr_left (exists_congr fun pieces => exists_congr fun s' => and_congr_right ?_)
  intro passes
  obtain ⟨bs, cut⟩ := passes.cut before spells
  exact reaches_ofParts_concat_iff group (tail.trans cut.tail) cut.rest

end Pattern

/-- A sequence of patterns that split what they are given matches if they all match one after the
other, and consumes their pieces; else it rejects as the first one that rejects, further on by the
bytes of the pieces before it. A sequence among its parts may be replaced by its own parts. -/
theorem Goal.yields_concat_iff (spells : input.Spells t) :
    (∀ parts, (∀ p ∈ parts, p.Honest definitions) →
      ∀ o, (Goal.apply (.concat parts) input).Yields definitions o ↔
        Pattern.Joins definitions parts input o) ∧
    ∀ xs ys zs : List (Pattern ρ), (∀ p ∈ xs ++ ys, p.Honest definitions) →
      (Pattern.concat (xs ++ [.concat ys] ++ zs)).AgreesOn definitions input
        (.concat (xs ++ ys ++ zs)) := by
  refine ⟨fun parts hp o => Pattern.yields_concat_iff_joins hp spells, fun xs ys zs hp o => ?_⟩
  rw [List.append_assoc, List.append_assoc, Goal.yields_iff, Goal.yields_iff]
  exact Pattern.reaches_ofParts_group_iff hp (.refl input) spells

/-- A sequence within a sequence on `abd`: its second part is not met there, two bytes in. -/
theorem Goal.yields_concat_iff_nested :
    (Slice.whole 0 ['a', 'b', 'd']).Spells ['a', 'b', 'd'] ∧
    (∀ p ∈ [Pattern.char 'a', .char 'b', .char 'c'], p.Honest fun _ : Unit => .dropped) ∧
    Pattern.Joins (fun _ : Unit => .dropped) [.char 'a', .char 'b', .char 'c']
      (.whole 0 ['a', 'b', 'd']) (.refuseAt .mismatch 2) ∧
    (Goal.apply (.concat [.char 'a', .concat [.char 'b', .char 'c']])
      (.whole 0 ['a', 'b', 'd'])).Yields (fun _ : Unit => .dropped) (.refuseAt .mismatch 2) := by
  have char (c : Char) : (Pattern.char c).Honest fun _ : Unit => .dropped :=
    Pattern.honest_satisfy _ _
  have honest : ∀ p ∈ [Pattern.char 'a', .char 'b', .char 'c'],
      p.Honest fun _ : Unit => .dropped := by
    simp only [List.forall_mem_cons]
    exact ⟨char 'a', char 'b', char 'c', nofun⟩
  have spells := Slice.spells_whole 0 ['a', 'b', 'd']
  have flat : (Goal.apply (.concat [.char 'a', .char 'b', .char 'c'])
      (.whole 0 ['a', 'b', 'd'])).Yields (fun _ : Unit => .dropped) (.refuseAt .mismatch 2) :=
    ⟨2, rfl⟩
  obtain ⟨joins, groups⟩ := @Goal.yields_concat_iff Unit (fun _ => .dropped) _ _ spells
  exact ⟨spells, honest, (joins _ honest _).1 flat,
    (groups [.char 'a'] [.char 'b', .char 'c'] [] honest _).2 flat⟩

end Recognizer
