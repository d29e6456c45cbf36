import Stencil.Html.Reader
import Stencil.Html.Writer
import Stencil.Selector
import Stencil.Xml.Reader
import Stencil.Xml.Writer

/-!
# Documents

A `Document` is a forest together with the kind of markup that it was read from and is written in.
Both template dialects work on documents: they look for elements, copy and detach them, change
attributes and contents, and write the result.
-/

namespace Stencil
open Markup

/-- The kinds of markup. -/
inductive Mode where
  | html
  | xml
  deriving Repr, DecidableEq, Inhabited

/-- A template document. -/
structure Document where
  mode : Mode
  forest : Forest
  deriving Repr, Inhabited

namespace Document

/-- Read a document. HTML is always readable; a fragment gains the elements around it. XML must be
well formed, apart from attributes without a value. -/
def read (source : String) : Mode → Except Xml.Fault Document
  | .html => .ok ⟨.html, Html.read source⟩
  | .xml => (Xml.read source).map (⟨.xml, ·⟩)

/-! ## Looking -/

/-- The node of the document itself. -/
def root (d : Document) : NodeId := d.forest.root

/-- The element at a node. -/
def element? (d : Document) (i : NodeId) : Option Element :=
  (d.forest.value? i).bind Value.element?

/-- The parent of a node. -/
def parent? (d : Document) (i : NodeId) : Option NodeId := d.forest.parent? i

/-- The trees below a node, in document order. -/
def treesBelow (d : Document) (i : NodeId) : List Tree :=
  match d.forest.find? i with
  | some t => t.descendants
  | none => []

/-- The nodes below a node, in document order. -/
def descendants (d : Document) (i : NodeId) : List NodeId := (d.treesBelow i).map Tree.id

/-- The elements of the document, in document order. -/
def elements (d : Document) : List NodeId :=
  (d.forest.document.preorder.filter fun t => t.value.isElement).map Tree.id

/-- The text of all text nodes in the tree at a node. -/
def textContent (d : Document) (i : NodeId) : String :=
  ((d.forest.find? i).map Tree.textContent).getD ""

/-- The names of elements that hold nothing in HTML. -/
def voidNames : List String :=
  ["area", "base", "br", "col", "embed", "hr", "img", "input", "keygen", "link", "meta", "param",
    "source", "track", "wbr"]

/-- Whether a node is an element that holds nothing, in any namespace of an HTML document. -/
def isVoidValue (mode : Mode) (v : Value) : Bool :=
  mode == .html && v.element?.any fun e => voidNames.contains (Text.lowerLetters e.name.base)

/-- Whether an element that holds nothing is at a node. -/
def isVoid (d : Document) (i : NodeId) : Bool :=
  (d.forest.value? i).any (isVoidValue d.mode)

/-- The elements below a node that a selector matches, in document order. -/
def select (d : Document) (scope : NodeId) (s : Selector) : List NodeId :=
  (d.descendants scope).filter (s.matchesAt d.forest)

/-- The first element below a node that a selector matches. -/
def selectFirst? (d : Document) (scope : NodeId) (s : Selector) : Option NodeId :=
  (d.descendants scope).find? (s.matchesAt d.forest)

/-! ## Changing -/

/-- Move a node to the end of the children of another one. -/
def append (d : Document) (parent child : NodeId) : Document :=
  { d with forest := d.forest.append parent child }

/-- Take a node and all below it from its parent. -/
def detach (d : Document) (i : NodeId) : Document :=
  { d with forest := d.forest.detach i }

/-- Detach all children of a node. -/
def clear (d : Document) (i : NodeId) : Document :=
  { d with forest := d.forest.clear i }

/-- Copy a node and all below it; the copy is detached. -/
def copy (d : Document) (i : NodeId) : Document × NodeId :=
  let (forest, j) := d.forest.copy i
  ({ d with forest }, j)

/-- Put one new node in the place of all children of a node. -/
def replaceChildren (d : Document) (i : NodeId) (value : Value) : Document :=
  { d with forest := d.forest.replaceChildren i value }

/-- Put a text in the place of all children of a node. -/
def setText (d : Document) (i : NodeId) (text : String) : Document :=
  d.replaceChildren i (.text text)

/-- Put a CDATA section in the place of all children of a node. -/
def setCdata (d : Document) (i : NodeId) (text : String) : Document :=
  d.replaceChildren i (.comment (cdataComment text))

/-- The attributes with the first one called `name` changed, or a new one at the end. -/
def withAttribute (name value : String) : List Attribute → List Attribute
  | [] => [⟨.plain name, value⟩]
  | a :: rest =>
    if a.name.base = name then { a with value } :: rest else a :: withAttribute name value rest

/-- The node with an attribute set. All attributes of an element lose their namespaces; of those
that are called alike afterwards one is kept. Nodes that are no elements stay as they are. -/
def valueWithAttribute (name value : String) : Value → Value
  | .element e =>
    let plain := e.attributes.map fun a => ⟨QName.plain a.name.base, a.value⟩
    .element { e with attributes := mergeAttributes (withAttribute name value plain) }
  | other => other

/-- Give an attribute of the element at a node a value. -/
def setAttribute (d : Document) (i : NodeId) (name value : String) : Document :=
  { d with forest := d.forest.setValue i (valueWithAttribute name value) }

/-! ## Writing -/

/-- The text of a node and all below it. In HTML only elements have one. -/
def writeNode (d : Document) (i : NodeId) : String :=
  match d.forest.find? i with
  | none => ""
  | some t =>
    match d.mode with
    | .html => if t.value.isElement then Html.write .outermost t else ""
    | .xml => Xml.write t

/-- The text of the document. -/
def write (d : Document) : String :=
  match d.mode with
  | .html => Html.write .outermost d.forest.document
  | .xml => Xml.write d.forest.document

end Document

end Stencil
