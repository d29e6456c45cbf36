import Stencil.Dialect
import Stencil.Document
import Stencil.Field
import Stencil.Text.Lowercase

/-!
# Component roots and their stamp sites

An element with an attribute `data-v-component-<kind>` is the root of a component, and the value of
the attribute is the component's name. The elements below it that carry `data-v-<singular>` are its
sites, where `<singular>` is the kind without a final `s`. If there are none, the first element
below the root that carries some `data-v-<x>s` around an element with `data-v-<x>` supplies the
singular `<x>`.
-/

namespace Stencil.Component
open Markup

/-- What the marker of a component root says. -/
structure Marker where
  kind : String
  name : String
  deriving Repr, DecidableEq

/-- The marker on an element: the first attribute with the marker's start counts. -/
def Marker.ofElement? (e : Element) : Option Marker := do
  let a ← e.attributes.find? fun a => Text.startsWith componentMarker.toList a.name.base.toList
  let key ← dataKey? a.name.base
  let kind := Text.lowercase (← Text.afterStem? key "vComponent")
  if kind.isEmpty then none else some ⟨kind, Text.trimmed a.value⟩

/-- The kind without a final `s`. -/
def Marker.singular (m : Marker) : String := (Text.beforeTail? m.kind "s").getD m.kind

/-- The elements below a node that carry an attribute, in document order. -/
def tagged (d : Document) (scope : NodeId) (name : String) : List NodeId :=
  ((d.treesBelow scope).filter fun t =>
    t.element?.any (·.hasAttribute name)).map Tree.id

/-- The `<x>` of an attribute name `data-v-<x>s` that is not the marker of a component. -/
def wrappedSingular? (name : String) : Option String := do
  let plural ← Text.afterStem? name "data-v-"
  if Text.startsWith "component-".toList plural.toList then none
  else
    let singular ← Text.beforeTail? plural "s"
    if singular.isEmpty then none else some singular

/-- The singular that the first wrapper below a root supplies. -/
def wrapperSingular? (d : Document) (root : NodeId) : Option String :=
  (d.treesBelow root).findSome? fun t => do
    let e ← t.element?
    e.attributes.findSome? fun a => do
      let singular ← wrappedSingular? a.name.base
      if (tagged d t.id ("data-v-" ++ singular)).isEmpty then none else some singular

/-- The singular in use below a root and the sites that carry it. There is at least one. -/
def stampSites? (d : Document) (root : NodeId) (singular : String) :
    Option (String × List NodeId) :=
  match tagged d root ("data-v-" ++ singular) with
  | site :: more => some (singular, site :: more)
  | [] => do
    let fallback ← wrapperSingular? d root
    match tagged d root ("data-v-" ++ fallback) with
    | site :: more => some (fallback, site :: more)
    | [] => none

end Stencil.Component
