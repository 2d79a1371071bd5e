import Recognizer.Proofs.Grammar.Regular

/-!
# The links of a pattern

Exchanging the references of a pattern one by one exchanges the list of them
(`Pattern.references_mapM`), and a pattern over good references has good references only.
-/

namespace Recognizer.Pattern

variable {ρ σ : Type} {m : Type → Type} [Monad m] [LawfulMonad m]

mutual

/-- The references after an exchange are what the references before it are exchanged for. -/
theorem references_mapM (f : ρ → m σ) (p : Pattern ρ) :
    references <$> p.mapM f = p.references.mapM f := by
  cases p with
  | satisfy accepts => simp [mapM, references]
  | literal text => simp [mapM, references]
  | endOfInput => simp [mapM, references]
  | custom answer => simp [mapM, references]
  | concat parts =>
    rw [references, ← referencesOfAll_mapAllM f parts]
    simp [mapM, references]
  | firstOf choices =>
    rw [references, ← referencesOfAll_mapAllM f choices]
    simp [mapM, references]
  | optional body =>
    rw [references, ← references_mapM f body]
    simp [mapM, references]
  | repeated body min max =>
    rw [references, ← references_mapM f body]
    simp [mapM, references]
  | label body message =>
    rw [references, ← references_mapM f body]
    simp [mapM, references]
  | context body name =>
    rw [references, ← references_mapM f body]
    simp [mapM, references]
  | implies condition consequence =>
    rw [references, List.mapM_append, ← references_mapM f condition,
      ← references_mapM f consequence]
    simp [mapM, references]
  | scan stop body =>
    rw [references, List.mapM_append, ← references_mapM f stop, ← references_mapM f body]
    simp [mapM, references]
  | series element separator config =>
    rw [references, List.mapM_append, ← references_mapM f element, ← references_mapM f separator]
    simp [mapM, references]
  | refer rule => simp [mapM, references]

/-- The same for a list of patterns. -/
theorem referencesOfAll_mapAllM (f : ρ → m σ) (ps : List (Pattern ρ)) :
    referencesOfAll <$> mapAllM f ps = (referencesOfAll ps).mapM f := by
  cases ps with
  | nil => simp [mapAllM, referencesOfAll]
  | cons p ps =>
    rw [referencesOfAll, List.mapM_append, ← references_mapM f p, ← referencesOfAll_mapAllM f ps]
    simp [mapAllM, referencesOfAll]

end

variable {good : ρ → Prop}

/-- What is good in each of some patterns is good in all of them together. -/
lemma RegularOver.of_mem_referencesOfAll {ps : List (Pattern ρ)} {rule : ρ}
    (h : ∀ p ∈ ps, rule ∈ p.references → good rule) (hr : rule ∈ referencesOfAll ps) :
    good rule := by
  induction ps with
  | nil => cases hr
  | cons p ps ih =>
    rw [List.forall_mem_cons] at h
    rcases List.mem_append.1 hr with hr | hr
    · exact h.1 hr
    · exact ih h.2 hr

/-- A pattern over good references has no others. -/
lemma RegularOver.of_mem_references {p : Pattern ρ} (hp : p.RegularOver good) {rule : ρ}
    (hr : rule ∈ p.references) : good rule := by
  induction hp with
  | satisfy accepts => cases hr
  | literal text => cases hr
  | endOfInput => cases hr
  | cut place => cases hr
  | concat _ ih => exact of_mem_referencesOfAll ih hr
  | firstOf _ ih => exact of_mem_referencesOfAll ih hr
  | optional _ ih => exact ih hr
  | implies _ _ ihc ihq => exact (List.mem_append.1 hr).elim ihc ihq
  | repeated min max _ ih => exact ih hr
  | scan _ _ ihs ihb => exact (List.mem_append.1 hr).elim ihs ihb
  | series config _ _ ihe ihs => exact (List.mem_append.1 hr).elim ihe ihs
  | label message _ ih => exact ih hr
  | context name _ ih => exact ih hr
  | refer hg => exact List.mem_singleton.1 hr ▸ hg

end Recognizer.Pattern
