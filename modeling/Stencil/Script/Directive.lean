import Stencil.Script.Expression
import Stencil.Text.Blank

/-!
# Directive lines

The lines above the markup of a rule script. A line is classified by the first form that fits:
blank or comment, component binding, start of a loop, end of a loop, alias, rule. Whatever fits
none is kept without effect.
-/

namespace Stencil.Script
open Text

/-- What a rule writes on the elements that it selects. -/
inductive Action where
  | content
  | setAttribute (name : String)
  deriving Repr, DecidableEq

/-- The action of a name: nothing and `innerText` write the content. -/
def Action.ofName (name : List Char) : Action :=
  let name := String.ofList (trim name)
  if name = "" ∨ name = "innerText" then .content else .setAttribute name

/-- The line `selector|action = expression`. -/
structure Rule where
  selector : String
  action : Action
  expression : String
  deriving Repr, DecidableEq

/-- What the start line of a loop declares: nothing that is looked at, or a clause, which may be
unusable. The span of a fault counts from the start of the template. -/
inductive Declaration where
  | unrelated
  | loop (clause : Except (ClauseFault × Span) Clause)
  deriving Repr

/-- Whether a loop is declared. -/
def Declaration.isLoop : Declaration → Bool
  | .unrelated => false
  | .loop _ => true

/-- The usable clause of a declaration. -/
def Declaration.clause? : Declaration → Option Clause
  | .loop (.ok c) => some c
  | _ => none

/-- A line of the directive region. -/
inductive Directive where
  | aliasLine (name selector : String)
  | beforeLine (anchor : String) (declaration : Declaration)
  | afterLine (anchor : String)
  | contextLine (binding : Binding)
  | ruleLine (rule : Rule)
  | verbatim
  deriving Repr

/-- Whether a directive ends a loop. -/
def Directive.isAfter : Directive → Bool
  | .afterLine _ => true
  | _ => false

/-- The rule that a directive is. -/
def Directive.rule? : Directive → Option Rule
  | .ruleLine r => some r
  | _ => none

/-! ## Cutting at the top level -/

/-- Where a scan is: the depth of brackets and parentheses, and the open quote. -/
structure Nesting where
  depth : Nat
  quote : Option Char

/-- The nesting behind a character. -/
def Nesting.after (n : Nesting) (c : Char) : Nesting :=
  match n.quote with
  | some q => if c = q then { n with quote := none } else n
  | none =>
    if c = '\'' ∨ c = '"' then { n with quote := some c }
    else if c = '[' ∨ c = '(' then { n with depth := n.depth + 1 }
    else if c = ']' ∨ c = ')' then { n with depth := n.depth - 1 }
    else n

/-- The parts before and behind the first `needle` outside brackets, parentheses and quotes. -/
def splitFrom? (needle : Char) (n : Nesting) : List Char → Option (List Char × List Char)
  | [] => none
  | c :: cs =>
    if c = needle ∧ n.quote = none ∧ n.depth = 0 then some ([], cs)
    else (splitFrom? needle (n.after c) cs).map fun (before, behind) => (c :: before, behind)

/-- The parts before and behind the first top-level `needle`. -/
def splitTop? (needle : Char) (cs : List Char) : Option (List Char × List Char) :=
  splitFrom? needle ⟨0, none⟩ cs

/-! ## Classifying -/

/-- Whether a text is `@` and one or more name characters. -/
def isAliasName : List Char → Bool
  | '@' :: name =>
    !name.isEmpty && name.all fun c => isLetter c || isDigit c || c == '_' || c == '-'
  | _ => false

/-- The trimmed text before the first bar of a line. -/
def anchorOf (line : List Char) : String := String.ofList (trim (line.takeWhile (· != '|')))

/-- What a loop's start line declares; the line starts at the byte offset `base`. -/
def declarationOf (base : Nat) (line : List Char) : Declaration :=
  if occursIn "foreach".toList line then
    .loop ((clauseOf (String.ofList line)).mapError fun (fault, span) => (fault, span.shift base))
  else .unrelated

/-- A line with an equals sign at the top level, given the trimmed parts around it. -/
def assignment (left right : List Char) : Directive :=
  if left.isEmpty || left.head? == some '$' then .verbatim
  else if isAliasName left then
    if right.isEmpty then .verbatim
    else .aliasLine (String.ofList left) (String.ofList right)
  else
    let (selector, action) := match splitTop? '|' left with
      | some (selector, name) => (trim selector, Action.ofName name)
      | none => (left, .content)
    if selector.isEmpty then .verbatim
    else .ruleLine ⟨String.ofList selector, action, String.ofList right⟩

/-- A trimmed line that is no binding; it starts at the byte offset `base`. -/
def plainDirective (base : Nat) (line : List Char) : Directive :=
  if occursIn "|before".toList line then .beforeLine (anchorOf line) (declarationOf base line)
  else if occursIn "|after".toList line then .afterLine (anchorOf line)
  else
    match splitTop? '=' line with
    | some (left, right) => assignment (trim left) (trim right)
    | none => .verbatim

/-- The directive of a line that starts at the byte offset `position`. -/
def directiveOf (position : Nat) (line : List Char) : Directive :=
  let trimmed := trim line
  let base := position + byteLength (line.takeWhile isBlank)
  if trimmed.isEmpty || startsWith ['/', '/'] trimmed then .verbatim
  else
    let binding? :=
      if occursIn "_component".toList trimmed then bindingIn? (String.ofList trimmed) else none
    match binding? with
    | some b => .contextLine b
    | none => plainDirective base trimmed

end Stencil.Script
