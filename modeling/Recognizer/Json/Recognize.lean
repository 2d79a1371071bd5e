import Recognizer.Json.Depth

/-!
# Recognizing JSON

An input is tried against an entry point in a depth that is always enough, so there is an outcome
for every input.
-/

namespace Recognizer.Json

/-- Try an input against an entry point, which has to consume all of it if it is strict. -/
def recognize (o : Options) (entry : Entry) (strict : Bool) (input : Slice) :
    Except GrammarError Outcome :=
  match h : entry.matcher o strict with
  | .ok m => .ok ((m.parse? (depthFor input.size) input).get (isSome_parse? h input))
  | .error e => .error e

/-- The outcome is the one that the pattern of the entry point yields. -/
theorem recognize_eq_ok_iff {o : Options} {entry : Entry} {strict : Bool} {m : Matcher}
    (h : entry.matcher o strict = .ok m) {input : Slice} {out : Outcome} :
    recognize o entry strict input = .ok out ↔
      (Goal.apply m.pattern input).Yields m.scope.definitions out := by
  have eq : recognize o entry strict input =
      .ok ((m.parse? (depthFor input.size) input).get (isSome_parse? h input)) := by
    rw [recognize]
    split
    · next m' h' =>
      cases h.symm.trans h'
      rfl
    · next h' => cases h.symm.trans h'
  have yields : (Goal.apply m.pattern input).Yields m.scope.definitions
      ((m.parse? (depthFor input.size) input).get (isSome_parse? h input)) :=
    ⟨_, by rw [← Pattern.parse?_eq_run, ← Matcher.parse?, Option.some_get]⟩
  rw [eq, Except.ok.injEq]
  exact ⟨fun e => e ▸ yields, yields.unique⟩

/-- Try an input against the smallest grammar for values. A grammar that cannot be built rejects
everything. -/
def recognizeValue (input : Slice) : Outcome :=
  match recognize {} .value false input with
  | .ok o => o
  | .error e => .refuse (.stated e.message)

end Recognizer.Json
