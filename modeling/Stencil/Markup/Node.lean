/-!
# Names, attributes and node values

What a node of a markup tree carries besides its children. HTML elements and the `svg` and `math`
elements inside HTML live in namespaces; so do a few attributes of the latter (`xlink:href` and its
like). Names of XML templates are kept as written, in no namespace.
-/

namespace Stencil.Markup

/-- The namespaces that occur in templates. -/
inductive Space where
  | none
  | html
  | svg
  | mathml
  | xlink
  | xml
  | xmlns
  deriving Repr, DecidableEq, Inhabited

/-- A name in a namespace, with the stem written before its colon, if it counts as one. -/
structure QName where
  space : Space
  stem : Option String
  base : String
  deriving Repr, DecidableEq, Inhabited

/-- A name in no namespace. -/
def QName.plain (base : String) : QName := ⟨.none, none, base⟩

/-- The name of an HTML element. -/
def QName.html (base : String) : QName := ⟨.html, none, base⟩

/-- An attribute and its value. -/
structure Attribute where
  name : QName
  value : String
  deriving Repr, DecidableEq, Inhabited

/-- An element without its children: a name and attributes in written order. -/
structure Element where
  name : QName
  attributes : List Attribute
  deriving Repr, DecidableEq, Inhabited

namespace Element

/-- The value of the attribute `name` of no namespace. -/
def attribute? (e : Element) (name : String) : Option String :=
  (e.attributes.find? fun a => a.name == QName.plain name).map (·.value)

/-- Whether the element carries the attribute `name` of no namespace. -/
def hasAttribute (e : Element) (name : String) : Bool := (e.attribute? name).isSome

/-- The value of the first attribute whose name without namespace is `id`. -/
def id? (e : Element) : Option String :=
  (e.attributes.find? fun a => a.name.base == "id").map (·.value)

end Element

/-- Keep one attribute of each name: the place of the first and the value of the last. -/
def mergeAttributes (attributes : List Attribute) : List Attribute :=
  attributes.foldl put []
where
  /-- Give the attribute the new value, or add it at the end. -/
  put (soFar : List Attribute) (a : Attribute) : List Attribute :=
    if soFar.any (·.name == a.name) then
      soFar.map fun b => if b.name == a.name then a else b
    else soFar ++ [a]

/-- What a node is, apart from its children. -/
inductive Value where
  | document
  | fragment
  | doctype (name publicId systemId : String)
  | comment (text : String)
  | text (text : String)
  | element (element : Element)
  | instruction (target data : String)
  deriving Repr, DecidableEq, Inhabited

/-- The element that the node is. -/
def Value.element? : Value → Option Element
  | .element e => some e
  | _ => none

/-- The text of a text node. -/
def Value.text? : Value → Option String
  | .text t => some t
  | _ => none

/-- Whether the node is an element. -/
def Value.isElement (v : Value) : Bool := v.element?.isSome

/-! ## Sections held as comments

A CDATA section is held as a comment whose text is the content between `[CDATA[` and `]]`. This is
the comment that an HTML reader makes of a section, so one value serves both kinds of document. -/

/-- The comment text that stands for a CDATA section with this content. -/
def cdataComment (content : String) : String := "[CDATA[" ++ content ++ "]]"

end Stencil.Markup
