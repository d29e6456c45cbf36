import Stencil.Markup.Forest
import Stencil.Xml.Attributes
import Stencil.Xml.Item

/-!
# Reading XML templates

Each item becomes an event: the start of an element, the end of one, or a leaf. The events build a
forest around the path of open elements. A template that ends with an open element is refused, and
so is an end tag that does not bear the name of the innermost open one.
-/

namespace Stencil.Xml
open Markup

/-- What an item does to the tree. -/
inductive Event where
  | opens (element : Element)
  | closes (name : String)
  | leaf (value : Value)
  deriving Repr, DecidableEq

/-- A target and its data, cut at the first blank. -/
def instructionValue (content : List Char) : Value :=
  let content := Text.trim content
  .instruction (String.ofList (content.takeWhile (!Text.isBlank ·)))
    (String.ofList (Text.trim (content.dropWhile (!Text.isBlank ·))))

/-- The event that an item stands for. -/
def Item.event : Item → Except Cause Event
  | .text content => match decode content with
    | .ok decoded => .ok (.leaf (.text (String.ofList decoded)))
    | .error fault => .error (.reference fault)
  | .start content => (element content).map .opens
  | .empty content => (element content).map fun e => .leaf (.element e)
  | .finish name => .ok (.closes (String.ofList name))
  | .comment content => .ok (.leaf (.comment (String.ofList content)))
  | .section content => .ok (.leaf (.comment (cdataComment (String.ofList content))))
  | .instruction content => .ok (.leaf (instructionValue content))
  | .doctype content =>
    .ok (.leaf (.doctype (String.ofList (Text.trim content)) "" ""))

/-! ## Building -/

/-- An element whose end has not come, with the trees before it, the nearest first. -/
structure OpenElement where
  element : Element
  before : List Tree
  deriving Inhabited

/-- The open elements, the innermost first, and the trees below the innermost one so far, the
nearest first. -/
structure Building where
  path : List OpenElement
  before : List Tree
  deriving Inhabited

namespace Building

/-- Nothing read yet. -/
def empty : Building := ⟨[], []⟩

/-- Apply one event. -/
def step (b : Building) : Event → Except Cause Building
  | .leaf value => .ok { b with before := .node 0 value [] :: b.before }
  | .opens e => .ok ⟨⟨e, b.before⟩ :: b.path, []⟩
  | .closes name =>
    match b.path with
    | [] => .error (.unmatchedEnd name)
    | o :: outer =>
      if o.element.name.base = name then
        .ok ⟨outer, .node 0 (.element o.element) b.before.reverse :: o.before⟩
      else .error (.mismatchedEnd o.element.name.base name)

/-- The finished trees, if no element is open. -/
def finish (b : Building) : Except Cause (List Tree) :=
  match b.path with
  | [] => .ok b.before.reverse
  | o :: _ => .error (.missingEnd o.element.name.base)

end Building

/-- Read on from the offset `position`. A bad tag or text is reported behind it, an end tag that
does not fit at its `<`. -/
def readFrom (b : Building) (position : Nat) : List Char → Except Fault (List Tree)
  | [] => match b.finish with
    | .ok trees => .ok trees
    | .error cause => .error ⟨position, cause⟩
  | c :: cs =>
    match h : Item.next position c cs with
    | .error fault => .error fault
    | .ok (item, rest) =>
      have := Item.length_lt_of_next h
      let behind := position + (Text.byteLength (c :: cs) - Text.byteLength rest)
      match item.event with
      | .error cause => .error ⟨behind, cause⟩
      | .ok event =>
        match b.step event with
        | .error cause => .error ⟨position, cause⟩
        | .ok b' => readFrom b' behind rest
termination_by cs => cs.length
decreasing_by assumption

/-- The forest of an XML template. A byte order mark at its start is skipped and not counted. -/
def read (text : String) : Except Fault Forest :=
  let cs := match text.toList with
    | '\uFEFF' :: cs => cs
    | cs => cs
  (readFrom .empty 0 cs).map Forest.ofTrees

end Stencil.Xml
