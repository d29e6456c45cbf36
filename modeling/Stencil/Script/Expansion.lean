import Stencil.Document
import Stencil.Field
import Stencil.Registry
import Stencil.Script.Plan

/-!
# Expanding the loop of a script

The first element that the anchor selects is the site of the loop. Its parent is emptied and then
receives one copy of the site for every item of the list, with the rules of the body applied to it
while it is still detached. Rules write values: a field of the item, if it is named and counts as
true, or else the text of the expression itself.
-/

namespace Stencil.Script
open Markup

/-- The value of an expression for one item. -/
def evaluate (expression item : String) (value : Json.Value) : String :=
  match indexOf? expression with
  | some (name, field) =>
    if name = item then
      match (value.member? field).filter isTruthy with
      | some found => fieldText found
      | none => expression
    else expression
  | none => expression

/-- Write a value on one element. -/
def applyAction (action : Action) (value : String) (d : Document) (i : NodeId) : Document :=
  match action with
  | .content => if d.isVoid i then d else d.setText i value
  | .setAttribute name => d.setAttribute i name value

/-- Apply a rule to the copy for one item. The elements are selected before any is changed; a rule
without a usable selector does nothing. -/
def applyRule (p : Plan) (aliases : Aliases) (item : String) (value : Json.Value) (top : NodeId)
    (d : Document) (r : Rule) : Document :=
  match p.selectorOf aliases r with
  | .error _ => d
  | .ok selector =>
    let targets := (top :: d.descendants top).filter (selector.matchesAt d.forest)
    targets.foldl (applyAction r.action (evaluate r.expression item value)) d

/-- Append the copy for one item. -/
def appendItem (p : Plan) (aliases : Aliases) (item : String) (container stamp : NodeId)
    (d : Document) (value : Json.Value) : Document :=
  let (d, copy) := d.copy stamp
  (p.body.foldl (applyRule p aliases item value copy) d).append container copy

/-- The items of a loop: the list in the first record of the bound component. There are none if
anything on the way is missing. -/
def itemsOf (p : Plan) (registry : Registry) : List Json.Value :=
  (do
    let clause ← p.clause?
    let binding ← p.binding?
    let record ← (← registry.get? binding.component).head?
    (← Keyed.get? record clause.list).items?).getD []

/-- The name of the item variable. -/
def Plan.item (p : Plan) : String := (p.clause?.map Clause.item).getD ""

/-- Expand the loop in a document. Without a site nothing changes. -/
def expand (p : Plan) (aliases : Aliases) (registry : Registry) (d : Document) : Document :=
  match p.anchorSelector aliases with
  | .error _ => d
  | .ok selector =>
    match d.selectFirst? d.root selector with
    | none => d
    | some site =>
      match d.parent? site with
      | none => d
      | some container =>
        -- The site is among the children that go, so it is copied first.
        let (d, stamp) := d.copy site
        let d := d.clear container
        (itemsOf p registry).foldl (appendItem p aliases p.item container stamp) d

/-- Render a template of the rule dialect. -/
def render (registry : Registry) (source : String) : Except Xml.Fault String :=
  let s := read source
  (Document.read s.skeleton .html).map fun d =>
    match s.plan? with
    | some p => (expand p s.aliases registry d).write
    | none => d.write

end Stencil.Script
