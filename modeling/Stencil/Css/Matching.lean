import Stencil.Css.Selector
import Stencil.Markup.Forest

/-!
# Matching elements

Whether an element matches depends on the elements around it, so matching works on a `Place`: a
tree with the way back to the tree that it is a part of. The parent of an element counts only if it
is an element itself; siblings that are no elements are passed over. A detached tree has neither
parent nor siblings.
-/

namespace Stencil.Css
open Markup

/-- A tree where it stands: alone, or below a place with its earlier siblings, the nearest first,
and its later ones. -/
inductive Place where
  | alone (tree : Tree)
  | child (parent : Place) (before : List Tree) (tree : Tree) (after : List Tree)

namespace Place

/-- The tree at the place. -/
def tree : Place → Tree
  | alone t => t
  | child _ _ t _ => t

/-- The place of the parent. -/
def parent? : Place → Option Place
  | alone _ => none
  | child p _ _ _ => some p

/-- The element at the place. -/
def element? (p : Place) : Option Element := p.tree.element?

/-- Whether an element is at the place. -/
def isElement (p : Place) : Bool := p.element?.isSome

/-- The place of the parent, if it is an element. -/
def parentElement? (p : Place) : Option Place := p.parent?.filter isElement

/-- The places of the elements around a place, the innermost first. -/
def ancestors : Place → List Place
  | alone _ => []
  | child p _ _ _ => if p.isElement then p :: ancestors p else []

/-- The places of earlier siblings, the nearest first. -/
def earlierFrom (parent : Place) : (before : List Tree) → (after : List Tree) → List Place
  | [], _ => []
  | t :: ts, after => child parent ts t after :: earlierFrom parent ts (t :: after)

/-- The places of later siblings, the nearest first. -/
def laterFrom (parent : Place) : (before : List Tree) → (after : List Tree) → List Place
  | _, [] => []
  | before, t :: ts => child parent before t ts :: laterFrom parent (t :: before) ts

/-- The places of the earlier sibling elements, the nearest first. -/
def earlier : Place → List Place
  | alone _ => []
  | child p before t after => (earlierFrom p before (t :: after)).filter isElement

/-- The places of the later sibling elements, the nearest first. -/
def later : Place → List Place
  | alone _ => []
  | child p before t after => (laterFrom p (t :: before) after).filter isElement

mutual

/-- All places inside a tree that stands at `here`, in document order. -/
def insideTree (here : Place) : Tree → List Place
  | .node _ _ children => insideTrees here [] children

/-- The places of the trees in a list of siblings and all places inside them. -/
def insideTrees (parent : Place) (before : List Tree) : List Tree → List Place
  | [] => []
  | t :: ts =>
    let here := child parent before t ts
    here :: insideTree here t ++ insideTrees parent (t :: before) ts

end

/-- All places below a place, in document order. -/
def inside (p : Place) : List Place := insideTree p p.tree

/-- The place of a node in a forest. -/
def find? (f : Forest) (i : NodeId) : Option Place :=
  f.trees.findSome? fun t =>
    let here := alone t
    (here :: here.inside).find? (·.tree.id == i)

end Place

/-! ## Conditions -/

/-- Equality of texts under a case rule that is settled. -/
def equalTexts (folded : Bool) (s t : String) : Bool :=
  if folded then Text.sameLetters s t else s == t

/-- Whether a value passes a comparison. -/
def Comparison.holds (c : Comparison) (folded : Bool) (value wanted : String) : Bool :=
  let fold (s : String) : List Char := (if folded then Text.lowerLetters s else s).toList
  let v := fold value
  let w := fold wanted
  match c with
  | .equal => v == w
  | .includesWord => !w.isEmpty && (Text.wordsBy Text.isMarkupBlank v).contains w
  | .dashMatch => v == w || Text.startsWith (w ++ ['-']) v
  | .begins => !w.isEmpty && Text.startsWith w v
  | .ends => !w.isEmpty && (Text.dropTail? w v).isSome
  | .contains => !w.isEmpty && Text.occursIn w v

/-- Whether an element is an HTML element, whose names are compared in lower case. -/
def isHtml (e : Element) : Bool := e.name.space == .html

/-- A name as it is compared with names of the element. -/
def comparedName (e : Element) (name : String) : String :=
  if isHtml e then Text.lowerLetters name else name

/-- Whether an element passes an attribute test. -/
def AttributeTest.holds (t : AttributeTest) (e : Element) : Bool :=
  let name := comparedName e t.name
  e.attributes.any fun a =>
    (t.anySpace || a.name.space == .none) && a.name.base == name &&
      match t.comparison with
      | none => true
      | some (c, wanted, rule) =>
        let folded := match rule with
          | .sensitive => false
          | .insensitive => true
          | .byElement => isHtml e
        c.holds folded a.value wanted

/-- The words of the class attributes of an element. -/
def classes (e : Element) : List String :=
  (e.attributes.filter (·.name.base == "class")).flatMap fun a =>
    (Text.wordsBy Text.isMarkupBlank a.value.toList).map String.ofList

/-- Whether `index = a·n + b` for some natural `n`. A gap that does not fit into 32 bits is none. -/
def onProgression (a b : Int) (index : Nat) : Bool :=
  let gap := (index : Int) - b
  clamp gap == gap && if a = 0 then gap == 0 else gap % a == 0 && 0 ≤ gap / a

/-- Whether the place among the siblings is on the progression. -/
def placeOnProgression (a b : Int) (fromEnd ofType : Bool) (p : Place) : Bool :=
  let others := if fromEnd then p.later else p.earlier
  let counted :=
    if ofType then
      others.filter fun q => q.element?.map (·.name) == p.element?.map (·.name)
    else others
  onProgression a b (counted.length + 1)

/-- Whether the place is directly below a document. -/
def isRoot (p : Place) : Bool :=
  match p.parent? with
  | some q => q.tree.value == .document
  | none => false

/-- Whether neither an element nor text is directly below the place. -/
def isEmptyPlace (p : Place) : Bool :=
  !p.tree.children.any fun t => t.value.isElement || t.value.text?.isSome

/-- The places that a combinator leads to from the place on its right. -/
def Combinator.leftOf (c : Combinator) (p : Place) : List Place :=
  match c with
  | .descendant => p.ancestors
  | .child => p.parentElement?.toList
  | .nextSibling => p.earlier.take 1
  | .laterSibling => p.earlier

/-- The places that a `:has` condition of the place can be about: those below it and those below
its later siblings. -/
def relatives (p : Place) : List Place :=
  (p.inside ++ p.later.flatMap fun q => q :: q.inside).filter Place.isElement

/-! ## Matching -/

mutual

/-- Whether the element at a place meets a condition. `anchor` is the element that conditions
inside `:has` are about. -/
def Simple.holds (anchor : Option NodeId) (p : Place) : Simple → Bool
  | .type name => p.element?.any fun e => e.name.base == comparedName e name
  | .anyType => true
  | .noSpace => p.element?.any (·.name.space == .none)
  | .id name => (p.element?.bind Element.id?) == some name
  | .hasClass name => p.element?.any fun e => (classes e).contains name
  | .attribute test => p.element?.any test.holds
  | .nth a b fromEnd ofType => placeOnProgression a b fromEnd ofType p
  | .root => isRoot p
  | .empty => isEmptyPlace p
  | .scope => isRoot p
  | .not list => !anyHolds anchor p list
  | .is list => anyHolds anchor p list
  | .has list => (relatives p).any fun q => anyHolds (some p.tree.id) q list
  | .anchor => anchor == some p.tree.id
  | .never => false

/-- Whether the element at a place meets all conditions. -/
def allHold (anchor : Option NodeId) (p : Place) : List Simple → Bool
  | [] => true
  | s :: rest => s.holds anchor p && allHold anchor p rest

/-- Whether some chain of places meets the compounds to the left of a place. -/
def chainHolds (anchor : Option NodeId) (p : Place) : List (Combinator × List Simple) → Bool
  | [] => true
  | (c, compound) :: rest =>
    (c.leftOf p).any fun q => allHold anchor q compound && chainHolds anchor q rest

/-- Whether the element at a place matches an alternative. -/
def Complex.holds (anchor : Option NodeId) (p : Place) : Complex → Bool
  | .mk compound left => allHold anchor p compound && chainHolds anchor p left

/-- Whether the element at a place matches one of the alternatives. -/
def anyHolds (anchor : Option NodeId) (p : Place) : List Complex → Bool
  | [] => false
  | c :: rest => c.holds anchor p || anyHolds anchor p rest

end

/-- Whether an element is at the place and matches the selector list. -/
def SelectorList.matches (list : SelectorList) (p : Place) : Bool :=
  p.isElement && anyHolds none p list

end Stencil.Css
