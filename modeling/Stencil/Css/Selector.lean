import Stencil.Css.Part

/-!
# Selectors

A selector list holds alternatives. Each is a compound of simple selectors for the element itself,
with further compounds to its left, each tied by a combinator to the compound on its right.
`SelectorList.ofText?` reads the text form; nothing is given for a text that is no selector list.
-/

namespace Stencil.Css

/-- How the element of a compound lies to that of the compound on its right. -/
inductive Combinator where
  | descendant
  | child
  | nextSibling
  | laterSibling
  deriving Repr, DecidableEq, Inhabited

/-- How an attribute value is compared. -/
inductive Comparison where
  | equal
  | includesWord
  | dashMatch
  | begins
  | ends
  | contains
  deriving Repr, DecidableEq, Inhabited

/-- Whether letter case counts in a comparison; the value of some attributes of HTML elements is
compared without it. -/
inductive CaseRule where
  | sensitive
  | insensitive
  | byElement
  deriving Repr, DecidableEq, Inhabited

/-- A test of an attribute: its name, whether any namespace will do, and a comparison with a value
if there is one. -/
structure AttributeTest where
  name : String
  anySpace : Bool
  comparison : Option (Comparison × String × CaseRule)
  deriving Repr, DecidableEq, Inhabited

mutual

/-- A condition on one element. -/
inductive Simple where
  | type (name : String)
  | anyType
  | noSpace
  | id (name : String)
  | hasClass (name : String)
  | attribute (test : AttributeTest)
  /-- The place among siblings, counted from the end or of the same type only, is `a·n + b`. -/
  | nth (a b : Int) (fromEnd ofType : Bool)
  | root
  | empty
  | scope
  | not (list : List Complex)
  | is (list : List Complex)
  | has (list : List Complex)
  /-- The element that a `:has` condition is about. -/
  | anchor
  | never
  deriving Repr, Inhabited

/-- Conditions on an element and on those to its left. -/
inductive Complex where
  | mk (compound : List Simple) (left : List (Combinator × List Simple))
  deriving Repr, Inhabited

end

/-- A selector list. -/
abbrev SelectorList := List Complex

/-! ## Reading -/

/-- The parts without blanks at the front. -/
def skipBlanks : List Part → List Part
  | .blank :: rest => skipBlanks rest
  | parts => parts

/-- Whether nothing but blanks is left. -/
def exhausted (parts : List Part) : Bool := (skipBlanks parts).isEmpty

/-- The runs of parts between commas. -/
def splitCommas : List Part → List (List Part)
  | [] => [[]]
  | .comma :: rest => [] :: splitCommas rest
  | p :: rest =>
    match splitCommas rest with
    | first :: more => (p :: first) :: more
    | [] => [[p]]

mutual

/-- Whether a part is broken or has a broken one in it. -/
def Part.isBroken : Part → Bool
  | .broken => true
  | .block _ inner => anyBroken inner
  | .call _ inner => anyBroken inner
  | _ => false

/-- Whether one of the parts is broken. -/
def anyBroken : List Part → Bool
  | [] => false
  | p :: rest => p.isBroken || anyBroken rest

end

/-- The attributes whose values HTML compares without letter case. -/
def foldedAttributes : List String :=
  ["accept", "accept-charset", "align", "alink", "axis", "bgcolor", "charset", "checked", "clear",
    "codetype", "color", "compact", "declare", "defer", "dir", "direction", "disabled", "enctype",
    "face", "frame", "hreflang", "http-equiv", "lang", "language", "link", "media", "method",
    "multiple", "nohref", "noresize", "noshade", "nowrap", "readonly", "rel", "rev", "rules",
    "scope", "scrolling", "selected", "shape", "target", "text", "type", "valign", "valuetype",
    "vlink"]

/-- The comparison that an operator stands for. -/
def comparison? : Part → Option Comparison
  | .delim '=' => some .equal
  | .comparison '~' => some .includesWord
  | .comparison '|' => some .dashMatch
  | .comparison '^' => some .begins
  | .comparison '$' => some .ends
  | .comparison '*' => some .contains
  | _ => none

/-- The name at the front of an attribute test, whether any namespace will do, and whether one was
written. -/
def attributeName? : List Part → Option (String × Bool × Bool × List Part)
  | .ident _ :: .delim '|' :: _ => none
  | .ident n :: rest => some (n, false, false, rest)
  | .delim '*' :: .delim '|' :: .ident n :: rest => some (n, true, true, rest)
  | .delim '|' :: .ident n :: rest => some (n, false, false, rest)
  | _ => none

/-- A name, a comparison and a value between square brackets. -/
def attributeTest? (inner : List Part) : Option AttributeTest :=
  match attributeName? (skipBlanks inner) with
  | none => none
  | some (name, anySpace, spaced, rest) =>
    match skipBlanks rest with
    | [] => some ⟨name, anySpace, none⟩
    | operator :: after =>
      match comparison? operator, skipBlanks after with
      | some c, value :: left =>
        let text? : Option String := match value with
          | .ident v => some v
          | .string v => some v
          | _ => none
        let rule? : Option CaseRule := match skipBlanks left with
          | [] =>
            some (if !spaced && foldedAttributes.contains (Text.lowerLetters name)
              then .byElement else .sensitive)
          | .ident flag :: more =>
            if !exhausted more then none
            else if Text.sameLetters flag "i" then some .insensitive
            else if Text.sameLetters flag "s" then some .sensitive
            else none
          | _ => none
        match text?, rule? with
        | some v, some r => some ⟨name, anySpace, some (c, v, r)⟩
        | _, _ => none
      | _, _ => none

/-! ### Places among siblings -/

/-- `-` and digits behind the `n` of a name such as `n-3`. -/
def dashDigits? (text : String) : Option Int :=
  match text.toList with
  | n :: '-' :: d :: ds =>
    if (n == 'n' || n == 'N') && (d :: ds).all Text.isDigit then
      some (clamp (-(Text.decimalValue (d :: ds) : Int)))
    else none
  | _ => none

/-- A number without sign as the constant of a formula. -/
def unsignedConstant? (a sign : Int) (parts : List Part) : Option (Int × Int × List Part) :=
  match skipBlanks parts with
  | .number false (some b) :: rest => some (a, sign * b, rest)
  | _ => none

/-- The constant of a formula behind its `n`, which may be missing. -/
def constant? (a : Int) (parts : List Part) : Option (Int × Int × List Part) :=
  match skipBlanks parts with
  | .delim '+' :: rest => unsignedConstant? a 1 rest
  | .delim '-' :: rest => unsignedConstant? a (-1) rest
  | .number true (some b) :: rest => some (a, b, rest)
  | _ => some (a, 0, parts)

/-- The name at the front of a formula, with the factor that its sign gives. -/
def formulaName? (factor : Int) (text : String) (rest : List Part) :
    Option (Int × Int × List Part) :=
  if Text.sameLetters text "n" then constant? factor rest
  else if Text.sameLetters text "n-" then unsignedConstant? factor (-1) rest
  else (dashDigits? text).map fun b => (factor, b, rest)

/-- A formula `a·n + b`, `even`, `odd` or a number. -/
def formula? (parts : List Part) : Option (Int × Int) :=
  let parsed : Option (Int × Int × List Part) := match skipBlanks parts with
    | .number _ (some b) :: rest => some (0, b, rest)
    | .dimension (some a) unit :: rest => formulaName? a unit rest
    | .ident text :: rest =>
      if Text.sameLetters text "even" then some (2, 0, rest)
      else if Text.sameLetters text "odd" then some (2, 1, rest)
      else
        match Text.afterStem? text "-" with
        | some tail => formulaName? (-1) tail rest
        | none => formulaName? 1 text rest
    | .delim '+' :: .ident text :: rest => formulaName? 1 text rest
    | _ => none
  match parsed with
  | some (a, b, rest) => if exhausted rest then some (a, b) else none
  | none => none

/-! ### Compounds -/

/-- The condition of a pseudo-class without arguments. -/
def pseudoClass? (name : String) : Option (List Simple) :=
  match Text.lowerLetters name with
  | "first-child" => some [.nth 0 1 false false]
  | "last-child" => some [.nth 0 1 true false]
  | "only-child" => some [.nth 0 1 false false, .nth 0 1 true false]
  | "first-of-type" => some [.nth 0 1 false true]
  | "last-of-type" => some [.nth 0 1 true true]
  | "only-of-type" => some [.nth 0 1 false true, .nth 0 1 true true]
  | "root" => some [.root]
  | "empty" => some [.empty]
  | "scope" => some [.scope]
  | _ => none

/-- What was read from parts, or the parts behind the place where reading gave up. -/
abbrev Reading (α : Type) := Except (List Part) α

/-- The conditions on the type of an element at the front of a compound, which may be missing, and
the parts behind them. A namespace stem is a mistake, since none is declared, and what stands where
the name behind a bar is missing is taken with the bar. -/
def typeConditions : List Part → Reading (List Simple × List Part)
  | .ident n :: rest =>
    match rest with
    | .delim '|' :: after => .error after
    | _ => .ok ([.type n], rest)
  | .delim '*' :: .delim '|' :: rest =>
    match rest with
    | .delim '*' :: after => .ok ([.anyType], after)
    | .ident n :: after => .ok ([.type n], after)
    | _ => .error (rest.drop 1)
  | .delim '*' :: rest => .ok ([.anyType], rest)
  | .delim '|' :: rest =>
    match rest with
    | .delim '*' :: after => .ok ([.noSpace], after)
    | .ident n :: after => .ok ([.noSpace, .type n], after)
    | _ => .error (rest.drop 1)
  | parts => .ok ([], parts)

/-- A combinator, if one stands at the front; blanks alone are one if more follows them. -/
def combinator? (parts : List Part) : Option (Combinator × List Part) :=
  match skipBlanks parts with
  | .delim '>' :: rest => some (.child, rest)
  | .delim '+' :: rest => some (.nextSibling, rest)
  | .delim '~' :: rest => some (.laterSibling, rest)
  | [] => none
  | rest =>
    match parts with
    | .blank :: _ => some (.descendant, rest)
    | _ => none

/-- What surrounds a selector list: whether it is inside `:has`, whose conditions are about an
element further out and may begin with a combinator; whether it is directly its argument; whether
unreadable alternatives are merely dropped; and whether it is inside `:host`, where no combinator
may stand. -/
structure Context where
  insideHas : Bool
  relative : Bool
  forgiving : Bool
  insideHost : Bool

/-- The context of a whole selector text. -/
def Context.outermost : Context := ⟨false, false, false, false⟩

mutual

/-- The alternatives of a selector list. -/
def selectorList? : (fuel : Nat) → Context → List Part → Option SelectorList
  | 0, _, _ => none
  | fuel + 1, ctx, parts => alternatives? fuel ctx (splitCommas parts)

/-- Each alternative of a selector list, read on its own. An unreadable one is not dropped if a
part behind the place where reading it gave up is broken. -/
def alternatives? : (fuel : Nat) → Context → List (List Part) → Option SelectorList
  | 0, _, _ => none
  | _ + 1, _, [] => some []
  | fuel + 1, ctx, segment :: rest =>
    let first : Option Complex :=
      match complex fuel ctx segment with
      | .ok c => some c
      | .error unread =>
        if ctx.forgiving && !anyBroken unread then some (.mk [.never] []) else none
    match first, alternatives? fuel ctx rest with
    | some c, some cs => some (c :: cs)
    | _, _ => none

/-- One alternative: compounds and combinators to the end of the parts. -/
def complex : (fuel : Nat) → Context → List Part → Reading Complex
  | 0, _, parts => .error parts
  | fuel + 1, ctx, parts =>
    if ctx.relative then
      let (combinator, rest) := (combinator? (skipBlanks parts)).getD (.descendant, parts)
      compounds fuel ctx (some (combinator, [.anchor], [])) rest
    else compounds fuel ctx none parts

/-- Compounds and combinators to the end of the parts, with what is to the left of them. -/
def compounds : (fuel : Nat) → Context →
    Option (Combinator × List Simple × List (Combinator × List Simple)) → List Part →
    Reading Complex
  | 0, _, _, parts => .error parts
  | fuel + 1, ctx, left, parts =>
    match compound fuel ctx (skipBlanks parts) with
    | .error unread => .error unread
    | .ok ([], rest) => .error rest
    | .ok (conditions, rest) =>
      let onLeft := match left with
        | none => []
        | some (c, compound, more) => (c, compound) :: more
      match combinator? rest with
      | some (c, after) =>
        if ctx.insideHost then .error after
        else compounds fuel ctx (some (c, conditions, onLeft)) after
      | none => if exhausted rest then .ok (.mk conditions onLeft) else .error rest

/-- The conditions on one element, as far as they go. -/
def compound : (fuel : Nat) → Context → List Part → Reading (List Simple × List Part)
  | 0, _, parts => .error parts
  | fuel + 1, ctx, parts =>
    match typeConditions parts with
    | .error unread => .error unread
    | .ok (conditions, rest) =>
      (simples fuel ctx rest).map fun (more, after) => (conditions ++ more, after)

/-- The conditions behind the type of an element, as far as they go. A part that cannot stand
behind a dot or a colon is taken with it. -/
def simples : (fuel : Nat) → Context → List Part → Reading (List Simple × List Part)
  | 0, _, parts => .error parts
  | fuel + 1, ctx, parts =>
    let next (conditions : Option (List Simple)) (rest : List Part) :
        Reading (List Simple × List Part) :=
      match conditions with
      | some conditions =>
        (simples fuel ctx rest).map fun (more, after) => (conditions ++ more, after)
      | none => .error rest
    match parts with
    | .hash n true :: rest => next (some [.id n]) rest
    | .delim '.' :: .ident n :: rest => next (some [.hasClass n]) rest
    | .delim '.' :: rest => .error (rest.drop 1)
    | .block '[' inner :: rest => next ((attributeTest? inner).map fun t => [.attribute t]) rest
    | .colon :: .ident n :: rest => next (pseudoClass? n) rest
    | .colon :: .call n inner :: rest =>
      next ((pseudoFunction? fuel ctx (Text.lowerLetters n) inner).map fun c => [c]) rest
    | .colon :: .colon :: rest => .error (rest.drop 1)
    | .colon :: rest => .error (rest.drop 1)
    | _ => .ok ([], parts)

/-- The condition of a pseudo-class with arguments. No element is the host of a shadow tree. -/
def pseudoFunction? : (fuel : Nat) → Context → String → List Part → Option Simple
  | 0, _, _, _ => none
  | fuel + 1, ctx, name, inner =>
    let nth (fromEnd ofType : Bool) : Option Simple :=
      (formula? inner).map fun (a, b) => .nth a b fromEnd ofType
    let list (relative forgiving : Bool) : Option SelectorList :=
      let insideHas := ctx.insideHas || relative
      selectorList? fuel { ctx with insideHas, relative, forgiving } inner
    match name with
    | "nth-child" => nth false false
    | "nth-last-child" => nth true false
    | "nth-of-type" => nth false true
    | "nth-last-of-type" => nth true true
    | "not" => (list false false).map .not
    | "is" => (list false true).map .is
    | "where" => (list false true).map .is
    | "has" => if ctx.insideHas then none else (list true false).map .has
    | "host" =>
      match complex fuel { ctx with relative := false, insideHost := true } inner with
      | .ok _ => some .never
      | .error _ => none
    | _ => none

end

mutual

/-- The number of parts in a part, itself included. -/
def Part.count : Part → Nat
  | .block _ inner => 1 + countAll inner
  | .call _ inner => 1 + countAll inner
  | _ => 1

/-- The number of parts in a list of parts. -/
def countAll : List Part → Nat
  | [] => 0
  | p :: rest => p.count + countAll rest

end

/-- The selector list that a text describes. -/
def SelectorList.ofText? (text : String) : Option SelectorList :=
  let ps := parts text
  -- Each step of the reader takes a part or goes one level down, in at most seven steps a level.
  selectorList? (8 * (countAll ps + 2)) .outermost ps

end Stencil.Css
