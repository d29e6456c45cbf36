import Stencil.Component.Binding

/-!
# Stamping components

Every component root is stamped in document order, as the roots stood before the first one was:
its first site is copied, all its sites are detached, and one bound copy for each record becomes
the root's last child. A root without sites stays as it is.
-/

namespace Stencil.Component
open Markup

/-- The records of a component: those of its name, if it has one that is registered, or else those
of its kind. -/
def records (registry : Registry) (m : Marker) : List Record :=
  let named := if m.name.isEmpty then none else registry.get? m.name
  (named.or (registry.get? m.kind)).getD []

/-- Append a copy of a stamp that is bound to a record. -/
def appendStamp (root stamp : NodeId) (fieldStem : String) (d : Document) (record : Record) :
    Document :=
  let (d, copy) := d.copy stamp
  (bindRecord fieldStem record d copy).append root copy

/-- Stamp one component root. -/
def stamp (registry : Registry) (d : Document) (root : NodeId) (m : Marker) : Document :=
  match stampSites? d root m.singular with
  | some (singular, first :: more) =>
    -- The site is detached with the others, so what is copied for each record is a copy of it.
    let (d, stamp) := d.copy first
    let d := (first :: more).foldl Document.detach d
    (records registry m).foldl (appendStamp root stamp ("data-v-" ++ singular ++ "-")) d
  | _ => d

/-- The component roots of a document with their markers, in document order. -/
def roots (d : Document) : List (NodeId × Marker) :=
  d.forest.document.preorder.filterMap fun t => do
    let m ← Marker.ofElement? (← t.element?)
    some (t.id, m)

/-- Stamp every component root of a document. -/
def process (registry : Registry) (d : Document) : Document :=
  (roots d).foldl (fun d (root, m) => stamp registry d root m) d

/-- Render a template of the component dialect. -/
def render (registry : Registry) (source : String) (mode : Mode) : Except Xml.Fault String :=
  (Document.read source mode).map fun d => (process registry d).write

end Stencil.Component
