import Stencil.Script.Directive
import Stencil.Keyed
import Stencil.Selector

/-!
# Scripts and their loop plan

A rule script is a region of directive lines followed by markup, its skeleton, which starts at the
first `<`. Only the first loop of a script counts. Its plan gathers what is needed to expand it: the
anchor, the clause, the first component binding of the script, and the rules up to the end line.
-/

namespace Stencil.Script
open Text

/-- A directive with the span of its line. -/
structure Line where
  directive : Directive
  span : Span
  deriving Repr

/-- A template of the rule dialect. -/
structure Template where
  lines : List Line
  skeleton : String
  deriving Repr

/-! ## Reading -/

/-- Whether a character ends a line or belongs to its end. -/
def endsLine (c : Char) : Bool := c == '\n' || c == '\r'

/-- The lines of a region, each with its line end; only the last one can lack it. -/
def splitLines : List Char → List (List Char)
  | [] => []
  | '\n' :: cs => ['\n'] :: splitLines cs
  | c :: cs =>
    match splitLines cs with
    | line :: rest => (c :: line) :: rest
    | [] => [[c]]

/-- The directives of consecutive lines, the first of which starts at a byte offset. -/
def readLines (position : Nat) : List (List Char) → List Line
  | [] => []
  | raw :: rest =>
    let line := dropWhileEnd endsLine raw
    ⟨directiveOf position line, ⟨position, position + byteLength line⟩⟩ ::
      readLines (position + byteLength raw) rest

/-- The script of a template text. -/
def read (source : String) : Template :=
  let cs := source.toList
  ⟨readLines 0 (splitLines (cs.takeWhile (· != '<'))), String.ofList (cs.dropWhile (· != '<'))⟩

/-! ## Aliases -/

/-- The selectors that alias names stand for. -/
abbrev Aliases := Keyed String

/-- The selector of an alias, or the token itself. -/
def Aliases.resolve (aliases : Aliases) (token : String) : String :=
  let token := trimmed token
  (Keyed.get? aliases token).getD token

/-- Take in the alias that a directive defines; a later one of the same name wins. -/
def Aliases.define (aliases : Aliases) : Directive → Aliases
  | .aliasLine name selector => Keyed.insert aliases name selector
  | _ => aliases

/-- The aliases defined anywhere in a script. -/
def Template.aliases (s : Template) : Aliases :=
  s.lines.foldl (fun table l => Aliases.define table l.directive) []

/-! ## The loop -/

/-- The anchor and declaration of a directive that declares a loop. -/
def Directive.loop? : Directive → Option (String × Declaration)
  | .beforeLine anchor declaration =>
    if declaration.isLoop then some (anchor, declaration) else none
  | _ => none

/-- The first line that declares a loop, with the lines after it. -/
def firstLoop? : List Line → Option (Line × List Line)
  | [] => none
  | l :: rest => if l.directive.loop?.isSome then some (l, rest) else firstLoop? rest

/-- The lines of a loop's body. -/
def loopBody (rest : List Line) : List Line := rest.takeWhile fun l => !l.directive.isAfter

/-- The component binding that a directive is. -/
def Directive.binding? : Directive → Option Binding
  | .contextLine b => some b
  | _ => none

/-- The first component binding of a script. -/
def Template.binding? (s : Template) : Option Binding := s.lines.findSome? (·.directive.binding?)

/-- Everything needed to expand the loop of a script. -/
structure Plan where
  anchor : String
  clause? : Option Clause
  binding? : Option Binding
  body : List Rule
  terminated : Bool
  deriving Repr

/-- The plan of the first loop of a script. -/
def Template.plan? (s : Template) : Option Plan := do
  let (l, rest) ← firstLoop? s.lines
  let (anchor, declaration) ← l.directive.loop?
  return {
    anchor
    clause? := declaration.clause?
    binding? := s.binding?
    body := (loopBody rest).filterMap (·.directive.rule?)
    terminated := rest.any (·.directive.isAfter) }

/-- The selector of a rule. The anchor of the loop followed by a blank and more text means that
text; any other selector is resolved as one alias token. -/
def Plan.selectorOf (p : Plan) (aliases : Aliases) (r : Rule) : Except SelectorFault Selector :=
  let selector := trim r.selector.toList
  let scoped? := if p.anchor.isEmpty then none else
    (dropStem? p.anchor.toList selector).filter fun rest => rest.head?.any isBlank
  match scoped? with
  | some rest => Selector.ofText (String.ofList rest)
  | none => Selector.ofText (aliases.resolve (String.ofList selector))

/-- The selector of the loop's anchor. -/
def Plan.anchorSelector (p : Plan) (aliases : Aliases) : Except SelectorFault Selector :=
  Selector.ofText (aliases.resolve p.anchor)

end Stencil.Script
