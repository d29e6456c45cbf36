import Stencil.Markup.Forest
import Stencil.Text.Search
import Stencil.Xml.Reference

/-!
# Writing XML templates

An element without children is written as an empty tag. A comment that stands for a CDATA section
is written as one, or as several where its content holds the terminator.
-/

namespace Stencil.Xml
open Markup Text

/-- The content of the CDATA section that a comment stands for. -/
def cdataContent? (comment : String) : Option String :=
  (afterStem? comment "[CDATA[").bind (beforeTail? · "]]")

/-- Cut a text behind every `]]` that a `>` follows, so that no piece holds the terminator. -/
def cdataSections : List Char → List (List Char)
  | [] => [[]]
  | ']' :: ']' :: '>' :: rest => [']', ']'] :: cdataSections ('>' :: rest)
  | c :: rest =>
    match cdataSections rest with
    | piece :: pieces => (c :: piece) :: pieces
    | [] => [[c]]

/-- The start of a tag: the name and the attributes. -/
def openingText (e : Element) : String :=
  "<" ++ e.name.base ++
    String.join (e.attributes.map fun a =>
      " " ++ a.name.base ++ "=\"" ++ escapedValue a.value ++ "\"")

/-- A node other than an element. -/
def leafText : Value → String
  | .text t => escapedText t
  | .comment c =>
    match cdataContent? c with
    | some content =>
      String.join ((cdataSections content.toList).map fun piece =>
        "<![CDATA[" ++ String.ofList piece ++ "]]>")
    | none => "<!--" ++ c ++ "-->"
  | .instruction target data =>
    "<?" ++ (if data.isEmpty then target else target ++ " " ++ data) ++ "?>"
  | .doctype name _ _ => "<!DOCTYPE " ++ name ++ ">"
  | .document | .fragment | .element _ => ""

mutual

/-- The text of a tree. -/
def write : Tree → String
  | .node _ value children =>
    match value with
    | .element e =>
      if children.isEmpty then openingText e ++ "/>"
      else openingText e ++ ">" ++ writeAll children ++ "</" ++ e.name.base ++ ">"
    | .document | .fragment => writeAll children
    | leaf => leafText leaf

/-- The text of a list of trees. -/
def writeAll : List Tree → String
  | [] => ""
  | t :: ts => write t ++ writeAll ts

end

end Stencil.Xml
