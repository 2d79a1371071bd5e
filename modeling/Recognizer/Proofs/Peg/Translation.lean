import Recognizer.Pattern.Plan
import Recognizer.Proofs.Peg.Expression

/-!
# Patterns as parsing expressions

`Pattern.expr` writes a pattern as a parsing expression: concatenation as sequence, a choice as
ordered choice, and so on. Labels and contexts leave no trace. It applies to patterns without
functions of their own, whose series have no bounds but one element at least (`Pattern.PegOver`).
-/

namespace Recognizer

open Peg (Expr Result)

variable {ρ : Type}

namespace Peg.Expr

/-- What may come behind the elements of a series: no separator that consumes something, or one if
trailing separators are allowed. -/
def ending (separator : Expr ρ) : Series.Trailing → Expr ρ
  | .forbidden => .not (.filled separator)
  | .allowed => .choice (.filled separator) .empty

/-- Elements with separators between them, behind the first element. -/
def further (element separator : Expr ρ) (trailing : Series.Trailing) : Expr ρ :=
  .seq (.star (.seq separator element)) (separator.ending trailing)

end Peg.Expr

namespace Peg.DerivesWithin

variable {g : ρ → Expr ρ} {depth : Nat} {a s : Expr ρ} {cs : List Char} {r : Result}
  {trailing : Series.Trailing}

/-- A series ends behind an element, if no separator that consumes something comes next. -/
lemma ending (h : DerivesWithin g depth (.filled s) cs .failed) :
    DerivesWithin g depth (s.ending trailing) cs (.taken [] cs) := by
  cases trailing with
  | forbidden => exact .not h
  | allowed => exact .choice_next h .empty

/-- A series ends where no round is made. -/
lemma further_stop (round : DerivesWithin g depth (.filled (.seq s a)) cs .failed)
    (h : DerivesWithin g depth (s.ending trailing) cs r) :
    DerivesWithin g depth (.further a s trailing) cs r := by
  rw [← r.behind_nil]
  exact .seq (.star_stop round) h

end Peg.DerivesWithin

namespace Pattern

mutual

/-- A pattern as a parsing expression. -/
def expr : Pattern ρ → Expr ρ
  | .satisfy accepts => .char accepts
  | .literal text => .literal text.toList
  | .endOfInput => .endOfInput
  | .concat parts => exprOfParts parts
  | .firstOf choices => exprOfChoices choices
  | .optional body => .choice body.expr .empty
  | .implies condition consequence =>
    .choice (.seq condition.expr consequence.expr) (.not condition.expr)
  | .repeated body min max => body.expr.between min max
  | .scan stop body => .upTo stop.expr body.expr
  | .series element separator config =>
    .seq element.expr (.further element.expr separator.expr config.trailing)
  | .label body _ => body.expr
  | .context body _ => body.expr
  | .refer rule => .rule rule
  | .custom _ => .fail

/-- The parts one after the other. -/
def exprOfParts : List (Pattern ρ) → Expr ρ
  | [] => .empty
  | p :: ps => .seq p.expr (exprOfParts ps)

/-- The first of the choices that succeeds. -/
def exprOfChoices : List (Pattern ρ) → Expr ρ
  | [] => .fail
  | p :: ps => .choice p.expr (exprOfChoices ps)

end

/-- Put together in a way that a parsing expression can say, over `good` rules. -/
inductive PegOver (good : ρ → Prop) : Pattern ρ → Prop where
  | satisfy (accepts : Char → Bool) : PegOver good (.satisfy accepts)
  | literal (text : String) : PegOver good (.literal text)
  | endOfInput : PegOver good .endOfInput
  | concat {parts : List (Pattern ρ)} : (∀ p ∈ parts, PegOver good p) → PegOver good (.concat parts)
  | firstOf {choices : List (Pattern ρ)} : (∀ p ∈ choices, PegOver good p) →
    PegOver good (.firstOf choices)
  | optional {body : Pattern ρ} : PegOver good body → PegOver good (.optional body)
  | implies {condition consequence : Pattern ρ} : PegOver good condition →
    PegOver good consequence → PegOver good (.implies condition consequence)
  | repeated {body : Pattern ρ} (min : Nat) (max : Option Nat) : PegOver good body →
    PegOver good (.repeated body min max)
  | scan {stop body : Pattern ρ} : PegOver good stop → PegOver good body →
    PegOver good (.scan stop body)
  | series {element separator : Pattern ρ} (trailing : Series.Trailing) : PegOver good element →
    PegOver good separator → PegOver good (.series element separator { trailing })
  | label {body : Pattern ρ} (message : String) : PegOver good body →
    PegOver good (.label body message)
  | context {body : Pattern ρ} (name : String) : PegOver good body →
    PegOver good (.context body name)
  | refer {rule : ρ} : good rule → PegOver good (.refer rule)

end Pattern

/-- What a rule is defined by. Without a definition it fails. -/
def Resolution.expr : Resolution ρ → Expr ρ
  | .defined p => p.expr
  | .undefined _ => .fail
  | .dropped => .fail

/-- The definitions of rules as a grammar of parsing expressions. -/
def Peg.grammar (definitions : ρ → Resolution ρ) (rule : ρ) : Expr ρ :=
  (definitions rule).expr

end Recognizer
