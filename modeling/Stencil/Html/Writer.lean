import Stencil.Markup.Tree

/-!
# Writing HTML

An element is written as its start tag, its content and its end tag. Void elements have neither
content nor end tag; text that was put into one all the same is written behind it. Text is escaped
except in elements whose content browsers read raw. A document node and a template's fragment write
their content alone, and processing instructions are left out.
-/

namespace Stencil.Html
open Markup

/-- One character of escaped text. -/
def escapeTextChar (c : Char) : List Char :=
  if c = '&' then "&amp;".toList
  else if c = '\u00a0' then "&nbsp;".toList
  else if c = '<' then "&lt;".toList
  else if c = '>' then "&gt;".toList
  else [c]

/-- One character of an escaped attribute value. -/
def escapeValueChar (c : Char) : List Char :=
  if c = '&' then "&amp;".toList
  else if c = '\u00a0' then "&nbsp;".toList
  else if c = '"' then "&quot;".toList
  else [c]

/-- Text as character data. -/
def escapeText (s : String) : String := String.ofList (s.toList.flatMap escapeTextChar)

/-- Text inside double quotes. -/
def escapeValue (s : String) : String := String.ofList (s.toList.flatMap escapeValueChar)

/-- HTML elements without content and end tag. -/
def voidNames : List String :=
  ["area", "base", "basefont", "bgsound", "br", "col", "embed", "frame", "hr", "img", "input",
    "keygen", "link", "meta", "param", "source", "track", "wbr"]

/-- HTML elements whose text is written as it is. -/
def rawNames : List String :=
  ["style", "script", "xmp", "iframe", "noembed", "noframes", "plaintext"]

/-- Whether an element is written without content and end tag. -/
def isVoid (q : QName) : Bool := q.space == .html && voidNames.contains q.base

/-- Whether the text of an element is written as it is. -/
def isRaw (q : QName) : Bool := q.space == .html && rawNames.contains q.base

/-- The name of an attribute with the stem that its namespace is written with. -/
def attributeName (q : QName) : String :=
  match q.space with
  | .none => q.base
  | .xml => "xml:" ++ q.base
  | .xmlns => if q.base == "xmlns" then q.base else "xmlns:" ++ q.base
  | .xlink => "xlink:" ++ q.base
  | _ => "unknown_namespace:" ++ q.base

/-- An attribute with a blank before it. -/
def attributeText (a : Attribute) : String :=
  " " ++ attributeName a.name ++ "=\"" ++ escapeValue a.value ++ "\""

/-- The start tag of an element. -/
def startTagText (e : Element) : String :=
  "<" ++ e.name.base ++ String.join (e.attributes.map attributeText) ++ ">"

/-- The end tag of an element. -/
def endTagText (e : Element) : String := "</" ++ e.name.base ++ ">"

/-- How text and elements are written in the surrounding element: whether text is escaped, and
whether elements are left out because a void element surrounds them. -/
structure Surroundings where
  escaped : Bool
  hidden : Bool

/-- Around a document. -/
def Surroundings.outermost : Surroundings := ⟨true, false⟩

mutual

/-- The text of a tree. -/
def write (around : Surroundings) : Tree → String
  | .node _ value children =>
    match value with
    | .text t => if around.escaped then escapeText t else t
    | .comment t => "<!--" ++ t ++ "-->"
    | .doctype name _ _ => "<!DOCTYPE " ++ name ++ ">"
    | .element e =>
      if around.hidden then writeAll ⟨!isRaw e.name, true⟩ children
      else if isVoid e.name then startTagText e ++ writeAll ⟨!isRaw e.name, true⟩ children
      else startTagText e ++ writeAll ⟨!isRaw e.name, false⟩ children ++ endTagText e
    | .document => writeAll around children
    | .fragment => writeAll around children
    | .instruction _ _ => writeAll around children

/-- The texts of a list of trees, one after the other. -/
def writeAll (around : Surroundings) : List Tree → String
  | [] => ""
  | t :: ts => write around t ++ writeAll around ts

end

end Stencil.Html
