import Stencil.Script.Plan

/-!
# Findings about a script

Checking a script finds what rendering would pass over in silence. Findings come in the order of
their kinds; if the script has a loop, they are sorted by where they start, and equal starts keep
that order.
-/

namespace Stencil.Script

/-- The kinds of findings. -/
inductive DiagnosticKind where
  | malformedForeach
  | missingContext
  | unterminatedLoop
  | ignoredLoop
  | undefinedAlias
  | invalidSelector
  deriving Repr, DecidableEq

/-- The name of a kind of findings. -/
def DiagnosticKind.name : DiagnosticKind → String
  | .malformedForeach => "malformed-foreach"
  | .missingContext => "missing-context"
  | .unterminatedLoop => "unterminated-loop"
  | .ignoredLoop => "ignored-loop"
  | .undefinedAlias => "undefined-alias"
  | .invalidSelector => "invalid-selector"

/-- A finding at a place of the template. -/
structure Diagnostic where
  kind : DiagnosticKind
  message : String
  span : Span
  deriving Repr, DecidableEq

/-- A finding in one line. -/
def Diagnostic.display (d : Diagnostic) : String := s!"{d.kind.name}: {d.message}"

/-! ## Findings about single lines -/

/-- The finding about an unusable clause. -/
def clauseFinding? (l : Line) : Option Diagnostic :=
  match l.directive with
  | .beforeLine _ (.loop (.error (fault, span))) => some ⟨.malformedForeach, fault.message, span⟩
  | _ => none

/-- The anchor of a line that starts or ends a loop. -/
def Directive.anchor? : Directive → Option String
  | .beforeLine anchor _ => some anchor
  | .afterLine anchor => some anchor
  | _ => none

/-- The finding about an anchor that is an alias nobody defines. -/
def aliasFinding? (aliases : Aliases) (l : Line) : Option Diagnostic := do
  let anchor ← l.directive.anchor?
  if anchor.toList.head? = some '@' ∧ Keyed.get? aliases anchor = none then
    some ⟨.undefinedAlias, s!"'{anchor}' is not defined by any '@name = selector' line", l.span⟩
  else none

/-- The finding about a rule whose selector is unusable. -/
def ruleFinding? (p : Plan) (aliases : Aliases) (l : Line) : Option Diagnostic := do
  let r ← l.directive.rule?
  match p.selectorOf aliases r with
  | .ok _ => none
  | .error fault => some ⟨.invalidSelector, fault.message, l.span⟩

/-! ## Findings about the loop -/

/-- The findings about loops after the first one. -/
def laterLoopFindings (lines : List Line) : List Diagnostic :=
  ((lines.filter fun l => l.directive.loop?.isSome).drop 1).map fun l =>
    ⟨.ignoredLoop, "only the first foreach loop is expanded", l.span⟩

/-- The findings about a missing binding, a missing end line and the anchor of the loop. -/
def planFindings (p : Plan) (aliases : Aliases) (span : Span) : List Diagnostic :=
  let context := if p.binding?.isNone then
    [⟨.missingContext, "no `$var = $this->_component['name']` line; the loop renders no items", span⟩]
    else []
  let ending := if !p.terminated then
    [⟨.unterminatedLoop, "no `|after` line; the loop body runs to the end of the directives", span⟩]
    else []
  let anchor := match p.anchorSelector aliases with
    | .ok _ => []
    | .error fault => [⟨.invalidSelector, s!"loop anchor: {fault.message}", span⟩]
  context ++ ending ++ anchor

/-- The findings about the loop and the rules of its body. -/
def loopFindings (s : Template) (aliases : Aliases) : List Diagnostic :=
  match s.plan?, firstLoop? s.lines with
  | some p, some (l, rest) =>
    planFindings p aliases l.span ++ (loopBody rest).filterMap (ruleFinding? p aliases)
  | _, _ => []

/-! ## All findings -/

/-- All findings about a script, kind by kind. -/
def Template.findings (s : Template) : List Diagnostic :=
  s.lines.filterMap clauseFinding? ++ s.lines.filterMap (aliasFinding? s.aliases) ++
    laterLoopFindings s.lines ++ loopFindings s s.aliases

/-- All findings about a script, in the order in which they are reported. -/
def Template.check (s : Template) : List Diagnostic :=
  if s.plan?.isSome then s.findings.mergeSort fun a b => a.span.start ≤ b.span.start
  else s.findings

end Stencil.Script
