import Stencil.Html.Rules

/-!
# Reading HTML

Every text is an HTML document. The tokens are taken off the text one by one, and how the next one
is read depends on the document built so far: the start tag of a script, for instance, makes the
following text a script.
-/

namespace Stencil.Html
open Markup

/-! ## One token -/

/-- Look at a token once. -/
def look (token : Token) : Build Reply := do
  let b ← get
  if b.isForeign token then ruleForeign token else rule b.mode token

/-- How deep in a table a token belongs: into a column group, a table, a row group or a row. -/
def Token.tableDepth : Token → Nat
  | .startTag tag =>
    if tag.name == "col" then 0
    else if tag.name == "tr" then 2
    else if tag.name == "td" || tag.name == "th" then 3
    else 1
  | _ => 1

/-- How many modes may follow one another for a token while no enclosure is closed. In a table the
mode goes step by step to where the token belongs, and what opens the document comes in its
order. -/
def Mode.detours (mode : Mode) (token : Token) : Nat :=
  match mode with
  | .initial => 6
  | .beforeHtml => 5
  | .beforeHead => 4
  | .inHead => 3
  | .afterHead => 2
  | .inBody => 1
  | .text => 7
  | .inTable => 2 + (1 - token.tableDepth) + (token.tableDepth - 1)
  | .inTableText =>
    match token with
    | .nul => 0
    | .text _ _ => 0
    | _ => 7
  | .inCaption => 3 + (1 - token.tableDepth) + (token.tableDepth - 1)
  | .inColumnGroup => 2 + token.tableDepth
  | .inTableBody => 2 + (2 - token.tableDepth) + (token.tableDepth - 2)
  | .inRow => 2 + (3 - token.tableDepth)
  | .inCell => 2 + (4 - token.tableDepth)
  | .inSelect => 2
  | .inSelectInTable => 2
  | .inTemplate => 3
  | .afterBody => if token = .endTag "html" then 0 else 2
  | .inFrameset => 1
  | .afterFrameset => 1
  | .afterAfterBody => 2
  | .afterAfterFrameset => 1

/-- The number of open enclosures. -/
def Builder.enclosures (b : Builder) : Nat := b.open_.countP fun f => isEnclosure f.name

/-- How often a token may have to be looked at. -/
def Builder.looks (b : Builder) (token : Token) : Nat :=
  8 * b.enclosures + b.mode.detours token + 1

/-- Look at a token until no rule asks to look at it again. -/
def settle : (looks : Nat) → Token → Build Unit
  | 0, _ => return
  | looks + 1, token => do
    match ← look token with
    | .done => return
    | .again token' => settle looks token'

/-- Drop a line feed at the front of a text token; nothing is left of a token that holds no more. -/
def dropLineFeed : Token → Option Token
  | .text blank ('\n' :: chars) => if chars.isEmpty then none else some (.text blank chars)
  | token => some token

/-- What one token does to the document. -/
def feed (token : Token) : Build Unit := do
  let b ← get
  modify fun b => { b with dropLineFeed := false }
  match if b.dropLineFeed then dropLineFeed token else some token with
  | none => return
  | some token => settle (b.looks token) token

/-! ## The text -/

/-- Whether CDATA sections are text where the document is being built. -/
def Builder.readsSections (b : Builder) : Bool := b.currentIs fun q => q.space != .html

/-- What the tokens of a piece of text do to the document. An end tag ends the text content of an
element. -/
def feedAll : List Token → Builder → Builder
  | [], b => b
  | token :: rest, b =>
    let b := match token with
      | .endTag _ => { b with content := .ordinary }
      | _ => b
    feedAll rest (feed token b).2

/-- The text behind a piece that was read: behind a script a byte order mark is dropped. -/
def behind (content : Content) (tokens : List Token) (rest : List Char) : List Char :=
  match content, tokens, rest with
  | .script, [.endTag _], c :: after => if c = byteOrderMark then after else rest
  | _, _, _ => rest

/-- Read a text to its end. -/
def readAll : (fuel : Nat) → List Char → Builder → Builder
  | 0, _, b => b
  | fuel + 1, cs, b =>
    match Token.next? b.content b.readsSections cs with
    | none => (feed .eof b).2
    | some (tokens, rest) =>
      let b := if beginsWithMistake cs then { b with dropLineFeed := false } else b
      readAll fuel (behind b.content tokens rest) (feedAll tokens b)

/-- The document that a text describes. -/
def read (text : String) : Forest :=
  let cs := normalizeInput text.toList
  (readAll (cs.length + 1) cs Builder.start).forest

end Stencil.Html
