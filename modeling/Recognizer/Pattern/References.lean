import Recognizer.Pattern.Basic

/-!
# The references in a pattern

`Pattern.references` lists them, `Pattern.mapM` exchanges them for others, and `Pattern.bind` puts
patterns in their places.
-/

namespace Recognizer.Pattern

variable {ρ σ : Type}

mutual

/-- The references in a pattern, from left to right. -/
def references : Pattern ρ → List ρ
  | .satisfy _ | .literal _ | .endOfInput | .custom _ => []
  | .concat parts => referencesOfAll parts
  | .firstOf choices => referencesOfAll choices
  | .optional body | .repeated body _ _ | .label body _ | .context body _ => body.references
  | .implies condition consequence => condition.references ++ consequence.references
  | .scan stop body => stop.references ++ body.references
  | .series element separator _ => element.references ++ separator.references
  | .refer rule => [rule]

/-- The references in some patterns. -/
def referencesOfAll : List (Pattern ρ) → List ρ
  | [] => []
  | p :: ps => p.references ++ referencesOfAll ps

end

mutual

/-- Put a pattern in the place of each reference. -/
def bind (f : ρ → Pattern σ) : Pattern ρ → Pattern σ
  | .satisfy accepts => .satisfy accepts
  | .literal text => .literal text
  | .endOfInput => .endOfInput
  | .concat parts => .concat (bindAll f parts)
  | .firstOf choices => .firstOf (bindAll f choices)
  | .optional body => .optional (body.bind f)
  | .implies condition consequence => .implies (condition.bind f) (consequence.bind f)
  | .repeated body min max => .repeated (body.bind f) min max
  | .scan stop body => .scan (stop.bind f) (body.bind f)
  | .series element separator config => .series (element.bind f) (separator.bind f) config
  | .label body message => .label (body.bind f) message
  | .context body name => .context (body.bind f) name
  | .refer rule => f rule
  | .custom answer => .custom answer

/-- Put patterns in the places of the references in some patterns. -/
def bindAll (f : ρ → Pattern σ) : List (Pattern ρ) → List (Pattern σ)
  | [] => []
  | p :: ps => p.bind f :: bindAll f ps

end

mutual

/-- Exchange each reference for the one that `f` finds, from left to right. -/
def mapM {m : Type → Type} [Monad m] (f : ρ → m σ) : Pattern ρ → m (Pattern σ)
  | .satisfy accepts => pure (.satisfy accepts)
  | .literal text => pure (.literal text)
  | .endOfInput => pure .endOfInput
  | .concat parts => do return .concat (← mapAllM f parts)
  | .firstOf choices => do return .firstOf (← mapAllM f choices)
  | .optional body => do return .optional (← mapM f body)
  | .implies condition consequence => do
    let condition ← mapM f condition
    let consequence ← mapM f consequence
    return .implies condition consequence
  | .repeated body min max => do return .repeated (← mapM f body) min max
  | .scan stop body => do
    let stop ← mapM f stop
    let body ← mapM f body
    return .scan stop body
  | .series element separator config => do
    let element ← mapM f element
    let separator ← mapM f separator
    return .series element separator config
  | .label body message => do return .label (← mapM f body) message
  | .context body name => do return .context (← mapM f body) name
  | .refer rule => do return .refer (← f rule)
  | .custom answer => pure (.custom answer)

/-- Exchange the references in some patterns. -/
def mapAllM {m : Type → Type} [Monad m] (f : ρ → m σ) :
    List (Pattern ρ) → m (List (Pattern σ))
  | [] => pure []
  | p :: ps => do
    let p ← mapM f p
    let ps ← mapAllM f ps
    return p :: ps

end

mutual

/-- After `bind` there are the references of the patterns that were put in. -/
theorem references_bind (f : ρ → Pattern σ) (p : Pattern ρ) :
    (p.bind f).references = p.references.flatMap fun rule => (f rule).references := by
  cases p with
  | satisfy _ => rfl
  | literal _ => rfl
  | endOfInput => rfl
  | custom _ => rfl
  | concat parts => exact referencesOfAll_bindAll f parts
  | firstOf choices => exact referencesOfAll_bindAll f choices
  | optional body => exact references_bind f body
  | repeated body _ _ => exact references_bind f body
  | label body _ => exact references_bind f body
  | context body _ => exact references_bind f body
  | implies condition consequence =>
    rw [bind, references, references, List.flatMap_append, references_bind f condition,
      references_bind f consequence]
  | scan stop body =>
    rw [bind, references, references, List.flatMap_append, references_bind f stop,
      references_bind f body]
  | series element separator _ =>
    rw [bind, references, references, List.flatMap_append, references_bind f element,
      references_bind f separator]
  | refer rule => rw [bind, references, List.flatMap_singleton]

/-- The same for a list of patterns. -/
theorem referencesOfAll_bindAll (f : ρ → Pattern σ) (ps : List (Pattern ρ)) :
    referencesOfAll (bindAll f ps) =
      (referencesOfAll ps).flatMap fun rule => (f rule).references := by
  cases ps with
  | nil => rfl
  | cons p ps =>
    rw [bindAll, referencesOfAll, referencesOfAll, List.flatMap_append, references_bind f p,
      referencesOfAll_bindAll f ps]

end

end Recognizer.Pattern
