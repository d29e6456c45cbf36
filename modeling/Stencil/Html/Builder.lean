import Stencil.Html.Vocabulary
import Stencil.Markup.Forest

/-!
# The state of document building

An HTML document is built token by token. The state holds the forest built so far, the stack of
open elements (the innermost first), the formatting elements that are to be opened again where they
were left open, and a handful of flags. This module has the state and its basic operations: where a
new node goes, opening and closing elements, scopes, and formatting elements.
-/

namespace Stencil.Html
open Markup

/-- The phases of document building. -/
inductive Mode where
  | initial
  | beforeHtml
  | beforeHead
  | inHead
  | afterHead
  | inBody
  | text
  | inTable
  | inTableText
  | inCaption
  | inColumnGroup
  | inTableBody
  | inRow
  | inCell
  | inSelect
  | inSelectInTable
  | inTemplate
  | afterBody
  | inFrameset
  | afterFrameset
  | afterAfterBody
  | afterAfterFrameset
  deriving Repr, DecidableEq, Inhabited

/-- Whether the mode is that of a table or of a part of one that holds elements. -/
def Mode.isInTable (mode : Mode) : Bool :=
  [.inTable, .inCaption, .inTableBody, .inRow, .inCell].contains mode

/-- An open element. -/
structure Frame where
  id : NodeId
  name : QName
  deriving Repr, DecidableEq, Inhabited

/-- An entry of the list of formatting elements: a boundary, or an element with the tag it was made
from. -/
inductive Formatting where
  | marker
  | element (id : NodeId) (tag : Tag)
  deriving Repr, Inhabited

/-- The state of document building. -/
structure Builder where
  forest : Forest
  mode : Mode
  /-- The mode to go back to after raw text or table text. -/
  returnMode : Mode
  /-- The modes of the open templates, innermost first. -/
  templateModes : List Mode
  /-- Text met in a table, in order. -/
  tableText : List (Bool × List Char)
  /-- The open elements, innermost first. -/
  open_ : List Frame
  /-- The formatting elements, newest first. -/
  formatting : List Formatting
  head : Option NodeId
  form : Option NodeId
  /-- Whether a frame set may still replace the body. -/
  framesOk : Bool
  /-- Whether the document type asks for the rules of old browsers. -/
  quirky : Bool
  /-- Whether a line feed at the front of the next token is dropped. -/
  dropLineFeed : Bool
  /-- Whether misplaced table content is moved before the table. -/
  moveOut : Bool
  /-- How the text that follows is read. -/
  content : Content
  deriving Inhabited

/-- A building step that gives a value. -/
abbrev Build := StateM Builder

/-- What a building rule asks for: nothing more, or that a token be looked at again. -/
inductive Reply where
  | done
  | again (token : Token)

namespace Builder

/-- The state before the first token. -/
def start : Builder :=
  { forest := .empty, mode := .initial, returnMode := .initial, templateModes := [],
    tableText := [], open_ := [], formatting := [], head := none, form := none, framesOk := true,
    quirky := false, dropLineFeed := false, moveOut := false, content := .ordinary }

/-- The innermost open element. -/
def current? (b : Builder) : Option Frame := b.open_.head?

/-- Whether the innermost open element has the property. -/
def currentIs (b : Builder) (p : QName → Bool) : Bool := (b.current?.map (p ·.name)).getD false

/-- Whether an element with the property is open, with no boundary inside it. -/
def inScope (b : Builder) (bounds : QName → Bool) (p : Frame → Bool) : Bool :=
  go b.open_
where
  /-- Search from the innermost element outward. -/
  go : List Frame → Bool
    | [] => false
    | f :: rest => p f || (!bounds f.name && go rest)

/-- Whether the HTML element `name` is open in a scope. -/
def hasInScope (b : Builder) (bounds : QName → Bool) (name : String) : Bool :=
  b.inScope bounds fun f => isNamed name f.name

/-- Whether a template is open. -/
def inTemplate (b : Builder) : Bool := b.open_.any fun f => isNamed "template" f.name

/-- The outermost open element. -/
def root? (b : Builder) : Option Frame := b.open_.getLast?

/-- The body, when it is the second open element from the outside. -/
def body? (b : Builder) : Option Frame :=
  match b.open_.reverse with
  | _ :: f :: _ => if isNamed "body" f.name then some f else none
  | _ => none

end Builder

/-! ## Nodes -/

/-- Change the forest. -/
def editForest (f : Forest → Forest) : Build Unit :=
  modify fun b => { b with forest := f b.forest }

/-- A new node that is nowhere in the document yet. -/
def createNode (value : Value) : Build NodeId :=
  modifyGet fun b =>
    let (forest, id) := b.forest.create value
    (id, { b with forest := forest })

/-- A new element that is nowhere in the document yet. A template gets a fragment for its
content. -/
def createElement (name : QName) (attributes : List Attribute) : Build NodeId := do
  let id ← createNode (.element ⟨name, mergeAttributes attributes⟩)
  if isNamed "template" name then
    let inner ← createNode .fragment
    editForest (·.append id inner)
  return id

/-- A place for a new node: as the last child of a node, or directly before one. -/
inductive Place where
  | last (parent : NodeId)
  | before (sibling : NodeId)

/-- The fragment that holds the content of a template; any other element holds its own. -/
def contentOwner (f : Frame) : Build NodeId := do
  if isNamed "template" f.name then
    return ((← get).forest.children f.id).head?.getD f.id
  else return f.id

/-- Where content goes that is misplaced in a table: before the table, or in the element outside
it if the table has no parent, or in the innermost template inside it. -/
def placeOutside : List Frame → Build Place
  | [] => return .last (← get).forest.document.id
  | f :: rest => do
    if isNamed "template" f.name then return .last (← contentOwner f)
    else if isNamed "table" f.name then
      if ((← get).forest.parent? f.id).isSome then return .before f.id
      else
        match rest with
        | outer :: _ => return .last outer.id
        | [] => return .last f.id
    else
      match rest with
      | [] => return .last f.id
      | _ => placeOutside rest

/-- Where a new node goes: into the given element or else the innermost open one, unless it is
content that has to move out of a table. -/
def placeFor (target : Option Frame) : Build Place := do
  let b ← get
  match target.or b.current? with
  | none => return .last b.forest.document.id
  | some f =>
    if b.moveOut && movesContentOut f.name then placeOutside b.open_
    else return .last (← contentOwner f)

/-- Put a node at a place, taking it from where it was. -/
def putNode (place : Place) (id : NodeId) : Build Unit :=
  match place with
  | .last parent => editForest (·.append parent id)
  | .before sibling => editForest (·.insertBefore sibling id)

/-- Put text at a place; it joins the text that stands there already. -/
def putText (place : Place) (chars : List Char) : Build Unit := do
  let forest := (← get).forest
  let neighbour : Option NodeId := match place with
    | .last parent => (forest.children parent).getLast?
    | .before sibling =>
      match forest.parent? sibling with
      | some parent => ((forest.children parent).takeWhile (· != sibling)).getLast?
      | none => none
  let extra := String.ofList chars
  match neighbour, neighbour.bind forest.value? with
  | some id, some (.text old) => editForest (·.setValue id fun _ => .text (old ++ extra))
  | _, _ =>
    let id ← createNode (.text extra)
    putNode place id

/-- Add text where the document is being built. -/
def appendText (chars : List Char) : Build Unit := do
  putText (← placeFor none) chars

/-- Add a comment where the document is being built. -/
def appendComment (text : String) : Build Unit := do
  let id ← createNode (.comment text)
  putNode (← placeFor none) id

/-- Add a comment at the end of a node. -/
def appendCommentTo (parent : NodeId) (text : String) : Build Unit := do
  let id ← createNode (.comment text)
  editForest (·.append parent id)

/-! ## Open elements -/

/-- Change the stack of open elements. -/
def editOpen (f : List Frame → List Frame) : Build Unit :=
  modify fun b => { b with open_ := f b.open_ }

/-- Go to another mode. -/
def setMode (mode : Mode) : Build Unit := modify fun b => { b with mode := mode }

/-- A frame set can no longer replace the body. -/
def framesNotOk : Build Unit := modify fun b => { b with framesOk := false }

/-- Close the innermost open element. -/
def pop : Build Unit := editOpen (·.drop 1)

/-- Add a new element to the document without opening it. -/
def addElement (name : QName) (attributes : List Attribute) : Build NodeId := do
  let id ← createElement name attributes
  putNode (← placeFor none) id
  return id

/-- Add a new element to the document and open it. -/
def openElement (name : QName) (attributes : List Attribute) : Build Frame := do
  let id ← addElement name attributes
  let frame : Frame := ⟨id, name⟩
  editOpen (frame :: ·)
  return frame

/-- Open the HTML element of a start tag. -/
def openTag (tag : Tag) : Build Unit := do
  let _ ← openElement (.html tag.name) tag.plainAttributes

/-- Open an HTML element whose start tag was not written. -/
def openImplied (name : String) : Build Unit := do
  let _ ← openElement (.html name) []

/-- Add the HTML element of a start tag that has no content. -/
def addTag (tag : Tag) : Build Unit := do
  let _ ← addElement (.html tag.name) tag.plainAttributes

/-- Close open elements as long as the innermost one has the property. -/
def popWhile (p : QName → Bool) : Build Unit := editOpen (·.dropWhile (p ·.name))

/-- Close open elements up to and including the innermost one with the property. -/
def popThrough (p : QName → Bool) : Build Unit :=
  editOpen fun stack => (stack.dropWhile fun f => !p f.name).drop 1

/-- Close open elements up to and including the innermost HTML element `name`. -/
def popThroughNamed (name : String) : Build Unit := popThrough (isNamed name)

/-- Take an element off the stack, wherever it is. -/
def removeOpen (id : NodeId) : Build Unit := editOpen (·.filter (·.id != id))

/-- Close elements whose end tag may be missing, except for `name`. -/
def closeImpliedExcept (name : String) : Build Unit :=
  popWhile fun q => hasImpliedEnd q && q.base != name

/-- Close elements whose end tag may be missing. -/
def closeImplied : Build Unit := popWhile hasImpliedEnd

/-- Close an open `p` with everything in it. -/
def closeParagraph : Build Unit := do
  closeImpliedExcept "p"
  popThroughNamed "p"

/-- Close a `p` that is open in button scope. -/
def closeParagraphInScope : Build Unit := do
  if (← get).hasInScope boundsButtonScope "p" then closeParagraph

/-! ## Formatting elements -/

/-- Change the list of formatting elements. -/
def editFormatting (f : List Formatting → List Formatting) : Build Unit :=
  modify fun b => { b with formatting := f b.formatting }

/-- Whether the entry stands for the node. -/
def Formatting.isFor (id : NodeId) : Formatting → Bool
  | .element i _ => i == id
  | .marker => false

/-- Whether the entry is a boundary. -/
def Formatting.isMarker : Formatting → Bool
  | .marker => true
  | .element _ _ => false

/-- Put a boundary in front of the formatting elements. -/
def pushMarker : Build Unit := editFormatting (.marker :: ·)

/-- Forget the formatting elements up to and including the newest boundary. -/
def clearToMarker : Build Unit :=
  editFormatting fun list => (list.dropWhile (!·.isMarker)).drop 1

/-- Forget the formatting element that stands for a node. -/
def forgetFormatting (id : NodeId) : Build Unit := editFormatting (·.filter (!·.isFor id))

/-- Replace the entry of a node. -/
def replaceFormatting (id : NodeId) (entry : Formatting) : Build Unit :=
  editFormatting (·.map fun e => if e.isFor id then entry else e)

/-- The formatting elements since the newest boundary, newest first. -/
def recentFormatting : Build (List (NodeId × Tag)) := do
  return ((← get).formatting.takeWhile (!·.isMarker)).filterMap fun
    | .element id tag => some (id, tag)
    | .marker => none

/-- Open a new element for each of these entries, the oldest first. -/
def reopen : List (NodeId × Tag) → Build Unit
  | [] => return
  | (id, tag) :: rest => do
    let frame ← openElement (.html tag.name) tag.plainAttributes
    replaceFormatting id (.element frame.id tag)
    reopen rest

/-- Open again the formatting elements that were closed by something else: those newer than the
newest one that is still open. -/
def reconstructFormatting : Build Unit := do
  let b ← get
  let closed := (← recentFormatting).takeWhile fun (id, _) => !b.open_.any (·.id == id)
  reopen closed.reverse

/-- Whether two tags have the same name and the same attributes in any order. -/
def Tag.sameUpToOrder (s t : Tag) : Bool :=
  s.name == t.name && s.attributes.length == t.attributes.length &&
    s.attributes.all fun a => t.attributes.contains a

/-- Open a formatting element and remember it. At most three equal ones are remembered. -/
def openFormatting (tag : Tag) : Build Unit := do
  let same := (← recentFormatting).filter fun (_, old) => tag.sameUpToOrder old
  if 3 ≤ same.length then
    match same.getLast? with
    | some (id, _) => forgetFormatting id
    | none => pure ()
  let frame ← openElement (.html tag.name) tag.plainAttributes
  editFormatting (.element frame.id tag :: ·)

/-- Close an element that has no rule of its own: up to and including the innermost open one of
that name, unless a special element is inside it. -/
def closeOrdinary (name : String) : Build Unit := do
  let rec search : List Frame → Option NodeId
    | [] => none
    | f :: rest =>
      if isNamed name f.name then some f.id
      else if isSpecial f.name then none
      else search rest
  match search (← get).open_ with
  | none => return
  | some id =>
    closeImpliedExcept name
    editOpen fun stack =>
      if stack.any (·.id == id) then (stack.dropWhile (·.id != id)).drop 1 else stack

/-! ## Misnested formatting -/

/-- What the walk outward from the furthest block to the formatting element leaves: the open
elements between them, the node that was moved last, and the node after which the new formatting
entry belongs, if it is no longer the old one's place. -/
structure Between where
  frames : List Frame
  last : NodeId
  after : Option NodeId

/-- Walk outward over the open elements between the furthest block and the formatting element. An
element that is no formatting element is dropped from the stack, and so is every one after the
third; the others are replaced by new ones that take the last moved node as their child. -/
def walkBetween (block : NodeId) : (count : Nat) → List Frame → Between → Build Between
  | _, [], acc => return { acc with frames := acc.frames.reverse }
  | count, f :: rest, acc => do
    if 3 ≤ count then
      forgetFormatting f.id
      walkBetween block (count + 1) rest acc
    else
      let entry := (← get).formatting.find? (·.isFor f.id)
      match entry with
      | some (.element _ tag) =>
        let name := QName.html tag.name
        let id ← createElement name tag.plainAttributes
        replaceFormatting f.id (.element id tag)
        let after := if acc.last == block then some id else acc.after
        editForest (·.detach acc.last)
        editForest (·.append id acc.last)
        walkBetween block (count + 1) rest
          { frames := ⟨id, name⟩ :: acc.frames, last := id, after := after }
      | _ => walkBetween block (count + 1) rest acc

/-- Put an entry directly after (that is, newer than) the entry of a node. -/
def insertAfter (id : NodeId) (entry : Formatting) : List Formatting → List Formatting
  | [] => []
  | e :: rest => if e.isFor id then entry :: e :: rest else e :: insertAfter id entry rest

/-- One round of closing a misnested formatting element. Says whether another round follows. -/
def adoptOnce (name : String) : Build Bool := do
  match (← recentFormatting).find? fun (_, tag) => tag.name == name with
  | none =>
    closeOrdinary name
    return false
  | some (id, tag) =>
    let b ← get
    if !b.open_.any (·.id == id) then
      forgetFormatting id
      return false
    else if !b.inScope boundsScope (·.id == id) then
      return false
    else
      let inner := b.open_.takeWhile (·.id != id)
      let outer := (b.open_.dropWhile (·.id != id)).drop 1
      -- The furthest block is the outermost special element inside the formatting element.
      let between := (inner.reverse.takeWhile fun f => !isSpecial f.name).reverse
      let upToBlock := inner.take (inner.length - between.length)
      match upToBlock.getLast? with
      | none =>
        editOpen fun _ => outer
        forgetFormatting id
        return false
      | some block =>
        let walked ← walkBetween block.id 0 between ⟨[], block.id, none⟩
        editForest (·.detach walked.last)
        putNode (← placeFor outer.head?) walked.last
        let fresh ← createElement (.html tag.name) tag.plainAttributes
        let entry := Formatting.element fresh tag
        for child in (← get).forest.children block.id do
          editForest (·.append fresh child)
        editForest (·.append block.id fresh)
        match walked.after with
        | none => replaceFormatting id entry
        | some place =>
          editFormatting (insertAfter place entry)
          forgetFormatting id
        editOpen fun _ =>
          upToBlock.dropLast ++ ⟨fresh, .html tag.name⟩ :: block :: walked.frames ++ outer
        return true

/-- Rounds of `adoptOnce`. -/
def adoptRounds (name : String) : Nat → Build Unit
  | 0 => return
  | n + 1 => do
    if ← adoptOnce name then adoptRounds name n

/-- Close a formatting element, also one that is misnested with other elements. -/
def adopt (name : String) : Build Unit := do
  let b ← get
  match b.current? with
  | some f =>
    if isNamed name f.name && !b.formatting.any (·.isFor f.id) then pop
    else adoptRounds name 8
  | none => adoptRounds name 8

/-- An `a` start tag closes an `a` that is still remembered. -/
def closeOpenLink : Build Unit := do
  match (← recentFormatting).find? fun (_, tag) => tag.name == "a" with
  | none => return
  | some (id, _) =>
    adopt "a"
    forgetFormatting id
    removeOpen id

end Stencil.Html
