import Recognizer.Pattern.Basic

/-!
# What a pattern does next

One application of a pattern is described as a `Plan`: an outcome, another goal that takes over, or
a goal whose outcome decides how to go on. `Goal.plan` unfolds a goal by one level. It is the only
definition of the meaning of patterns; `Recognizer.Pattern.Run` and `Recognizer.Pattern.Machine`
evaluate plans in two ways, one to reason about and one that needs no native stack.
-/

namespace Recognizer

variable {ρ : Type}

/-- What a reference leads to. -/
inductive Resolution (ρ : Type) where
  | defined (definition : Pattern ρ)
  /-- The rule exists and has no definition yet. -/
  | undefined (name : String)
  /-- The grammar that held the rule is gone. -/
  | dropped

/-- A question that evaluation has to answer by an outcome. -/
inductive Goal (ρ : Type) where
  /-- Apply a pattern to an input. -/
  | apply (p : Pattern ρ) (input : Slice)
  /-- Apply the definition of a rule. -/
  | resolve (rule : ρ) (input : Slice)
  /-- Go on with a repetition on `rest`, after `count` matches. -/
  | repeating (body : Pattern ρ) (min : Nat) (max : Option Nat) (input rest : Slice) (count : Nat)
  /-- Go on with a scan on `rest`. -/
  | scanning (stop body : Pattern ρ) (input rest : Slice)
  /-- Go on with a series on `rest`, after `count` elements. -/
  | listing (element separator : Pattern ρ) (config : Series.Config) (input rest : Slice)
      (count : Nat)

/-- How a goal is reached. -/
inductive Plan (ρ : Type) where
  /-- With this outcome. -/
  | done (o : Outcome)
  /-- By another goal. -/
  | become (g : Goal ρ)
  /-- By way of a goal whose outcome decides how to go on. -/
  | await (g : Goal ρ) (next : Outcome → Plan ρ)

/-- One character that passes the test. -/
def Outcome.ofChar (accepts : Char → Bool) (input : Slice) : Outcome :=
  match input.first? with
  | none => .refuse .noInput
  | some c => if accepts c then .split input c.utf8Size else .refuse .mismatch

/-- The given text. Of the three ways to miss it, the empty input is named first. -/
def Outcome.ofText (text : String) (input : Slice) : Outcome :=
  if input.startsWith text.toList then .split input (Text.byteLength text.toList)
  else if input.isEmpty then .refuse .noInput
  else if input.size < Text.byteLength text.toList then .refuse .notEnoughInput
  else .refuse (.expected text)

/-- Nothing, at the end of the input. -/
def Outcome.ofEnd (input : Slice) : Outcome :=
  if input.isEmpty then .empty input else .refuse .trailingInput

/-- Is there room for one more after `count`? -/
def belowMax (max : Option Nat) (count : Nat) : Bool :=
  max.all (count < ·)

/-- The further of two rejections, the earlier one if they got equally far. -/
def Rejection.further : Option Rejection → Rejection → Rejection
  | none, e => e
  | some best, e => if e.offset > best.offset then e else best

/-- What a choice answers when all rejected: the rejection that got furthest, if it got beyond the
start. -/
def Outcome.ofFurthest : Option Rejection → Outcome
  | some e => if e.offset > 0 then .rejected e else .refuse .noAlternative
  | none => .refuse .noAlternative

/-- The end of a repetition with `count` matches, which a rejection may have brought about. -/
def Outcome.ofRepeated (min : Nat) (input rest : Slice) (count : Nat)
    (stoppedBy : Option Rejection) : Outcome :=
  if min ≤ count then .fromRemainder input rest
  else
    match stoppedBy with
    | some e => .rejected (e.shifted (input.progress rest))
    | none => .refuseAt (.tooFewRepetitions min count) (input.progress rest)

/-- The end of a series with `count` elements. -/
def Outcome.ofSeries (min : Nat) (input rest : Slice) (count : Nat) : Outcome :=
  if count < min then .refuseAt (.tooFewElements min count) (input.progress rest)
  else .fromRemainder input rest

/-- Apply the parts one after the other. -/
def Plan.ofParts (input : Slice) : List (Pattern ρ) → Slice → Plan ρ
  | [], rest => .done (.fromRemainder input rest)
  | p :: ps, rest =>
    .await (.apply p rest) fun
      | .matched _ remainder => ofParts input ps remainder
      | .rejected e => .done (.rejected (e.shifted (input.progress rest)))

/-- Apply the choices to the same input, `best` being the rejection that got furthest so far. -/
def Plan.ofChoices (input : Slice) : List (Pattern ρ) → Option Rejection → Plan ρ
  | [], best => .done (.ofFurthest best)
  | p :: ps, best =>
    .await (.apply p input) fun
      | .matched consumed remainder => .done (.matched consumed remainder)
      | .rejected e => ofChoices input ps (some (.further best e))

/-- The plan for applying a pattern. -/
def Pattern.plan (input : Slice) : Pattern ρ → Plan ρ
  | .satisfy accepts => .done (.ofChar accepts input)
  | .literal text => .done (.ofText text input)
  | .endOfInput => .done (.ofEnd input)
  | .concat parts => .ofParts input parts input
  | .firstOf choices => .ofChoices input choices none
  | .optional body =>
    .await (.apply body input) fun
      | .matched consumed remainder => .done (.matched consumed remainder)
      | .rejected _ => .done (.empty input)
  | .implies condition consequence =>
    .await (.apply condition input) fun
      | .rejected _ => .done (.empty input)
      | .matched _ remainder =>
        .await (.apply consequence remainder) fun
          | .matched _ rest => .done (.fromRemainder input rest)
          | .rejected e => .done (.rejected (e.shifted (input.progress remainder)))
  | .repeated body min max => .become (.repeating body min max input input 0)
  | .scan stop body => .become (.scanning stop body input input)
  | .series element separator config =>
    if config.max = some 0 then .done (.empty input)
    else
      .await (.apply element input) fun
        | .matched _ remainder => .become (.listing element separator config input remainder 1)
        | .rejected e => .done (if config.min = 0 then .empty input else .rejected e)
  | .label body message =>
    .await (.apply body input) fun o => .done (o.mapRejection (·.labelled message))
  | .context body name =>
    .await (.apply body input) fun o => .done (o.mapRejection (·.within name))
  | .refer rule => .become (.resolve rule input)
  | .custom answer => .done (answer input)

/-- The plan for a repetition under way. It ends on a match that consumes nothing. -/
def Plan.ofRepeating (body : Pattern ρ) (min : Nat) (max : Option Nat) (input rest : Slice)
    (count : Nat) : Plan ρ :=
  if belowMax max count then
    .await (.apply body rest) fun
      | .matched consumed remainder =>
        if consumed.isEmpty then .done (.ofRepeated min input rest count none)
        else .become (.repeating body min max input remainder (count + 1))
      | .rejected e => .done (.ofRepeated min input rest count (some e))
  else .done (.ofRepeated min input rest count none)

/-- The plan for a scan under way. The stop is tried before the body. -/
def Plan.ofScanning (stop body : Pattern ρ) (input rest : Slice) : Plan ρ :=
  .await (.apply stop rest) fun
    | .matched _ remainder => .done (.fromRemainder input remainder)
    | .rejected _ =>
      if rest.isEmpty then .done (.refuseAt .unterminated (input.progress rest))
      else
        .await (.apply body rest) fun
          | .matched consumed remainder =>
            if consumed.isEmpty then .done (.refuseAt .noProgress (input.progress rest))
            else .become (.scanning stop body input remainder)
          | .rejected e => .done (.rejected (e.shifted (input.progress rest)))

/-- The plan for a series under way. A separator and an element that together leave as much as
there was end it, and so does a separator that consumes nothing and has no element behind it. -/
def Plan.ofListing (element separator : Pattern ρ) (config : Series.Config) (input rest : Slice)
    (count : Nat) : Plan ρ :=
  let finish (rest : Slice) : Plan ρ := .done (.ofSeries config.min input rest count)
  if belowMax config.max count then
    .await (.apply separator rest) fun
      | .rejected _ => finish rest
      | .matched _ afterSeparator =>
        .await (.apply element afterSeparator) fun
          | .matched _ remainder =>
            if remainder.size = rest.size then finish rest
            else .become (.listing element separator config input remainder (count + 1))
          | .rejected e =>
            if afterSeparator.size = rest.size then finish rest
            else
              match config.trailing with
              | .forbidden => .done (.rejected (e.shifted (input.progress afterSeparator)))
              | .allowed => finish afterSeparator
  else finish rest

/-- Unfold a goal by one level. -/
def Goal.plan (definitions : ρ → Resolution ρ) : Goal ρ → Plan ρ
  | .apply p input => p.plan input
  | .resolve rule input =>
    match definitions rule with
    | .defined definition => .become (.apply definition input)
    | .undefined name => .done (.refuse (.undefinedRule name))
    | .dropped => .done (.refuse .grammarDropped)
  | .repeating body min max input rest count => .ofRepeating body min max input rest count
  | .scanning stop body input rest => .ofScanning stop body input rest
  | .listing element separator config input rest count =>
    .ofListing element separator config input rest count

end Recognizer
