import Stencil.Component.Root
import Stencil.Registry

/-!
# Binding records

A copy of a stamp receives the fields of one record. Every attribute that starts with the field
prefix names a field; the value found for it becomes the content of the element, unless the element
is void, and the address of a link or image if the field looks like one.
-/

namespace Stencil.Component
open Markup

/-- An element with this attribute receives CDATA sections instead of texts. -/
def cdataFilter : String := "data-filter-cdata"

/-- The value of a field: under the name as written, under its key, or under the attribute's own
value as a key. -/
def lookup? (record : Record) (field value : String) : Option Json.Value :=
  (Keyed.get? record field).or <|
    ((dataKey? ("data-" ++ field)).bind (Keyed.get? record)).or <|
      let key := Text.trimmed value
      if key.isEmpty then none else Keyed.get? record key

/-- Whether a field name, in lower case, looks like an address. -/
def looksLikeAddress (field : String) : Bool :=
  Text.contains field "url" || field == "href" || field == "src" || field == "link"

/-- The attribute of a link or image that also receives a field. -/
def linkAttribute? (tag field : String) : Option String :=
  let field := Text.lowerLetters field
  if tag == "a" && looksLikeAddress field then some "href"
  else if tag == "img" && (looksLikeAddress field || Text.startsWith "image".toList field.toList ||
      Text.startsWith "img".toList field.toList) then some "src"
  else none

/-- The fields that an element names and the texts found for them, in the order of its
attributes. -/
def boundFields (fieldStem : String) (record : Record) (e : Element) : List (String × String) :=
  e.attributes.filterMap fun a => do
    let field ← Text.afterStem? a.name.base fieldStem
    let value ← lookup? record field a.value
    some (field, fieldText value)

/-- Put the text of one field into an element. -/
def bindField (cdata : Bool) (tag : String) (i : NodeId) (d : Document)
    (bound : String × String) : Document :=
  let (field, text) := bound
  let d := match linkAttribute? tag field with
    | some target => d.setAttribute i target text
    | none => d
  if d.isVoid i then d
  else if cdata then d.setCdata i text
  else d.setText i text

/-- Put the fields that one element names into it. -/
def bindElement (fieldStem : String) (record : Record) (d : Document) (i : NodeId) : Document :=
  match d.element? i with
  | none => d
  | some e =>
    (boundFields fieldStem record e).foldl
      (bindField (e.hasAttribute cdataFilter) (Text.lowerLetters e.name.base) i) d

/-- Put a record into a tree, element by element. -/
def bindRecord (fieldStem : String) (record : Record) (d : Document) (top : NodeId) : Document :=
  (top :: d.descendants top).foldl (bindElement fieldStem record) d

end Stencil.Component
