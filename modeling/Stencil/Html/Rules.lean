import Stencil.Html.Builder

/-!
# The rules of document building

One rule for each mode says what a token does to the document. A rule that closes something and
leaves the token for another mode asks for the token to be looked at again. Rules that fall back on
those of another mode call them, and the modes are ordered so that no rule calls itself.
-/

namespace Stencil.Html
open Markup

/-! ## Shared steps -/

/-- Nothing more to do. -/
def done : Build Reply := return .done

/-- Look at the token again. -/
def retry (token : Token) : Build Reply := return .again token

/-- Go to another mode and look at the token again. -/
def retryIn (mode : Mode) (token : Token) : Build Reply := do
  setMode mode
  retry token

/-- Read the content of an element that was just opened in another way, as text. -/
def readContent (content : Content) : Build Unit :=
  modify fun b => { b with content := content, returnMode := b.mode, mode := .text }

/-- Open an element whose content is text without character references. -/
def openRaw (tag : Tag) : Build Reply := do
  openTag tag
  readContent (.raw tag.name)
  done

/-- Open an element whose content is text with character references. -/
def openText (tag : Tag) : Build Reply := do
  openTag tag
  readContent (.references tag.name)
  done

/-- Give an element the attributes that it lacks. -/
def addMissingAttributes (id : NodeId) (attributes : List Attribute) : Build Unit :=
  editForest (·.setValue id fun
    | .element e =>
      let missing := attributes.filter fun a => !e.attributes.any (·.name == a.name)
      .element { e with attributes := e.attributes ++ missing }
    | other => other)

/-- A second `html` start tag only adds attributes. -/
def mergeRoot (tag : Tag) : Build Reply := do
  let b ← get
  if !b.inTemplate then
    match b.root? with
    | some f => addMissingAttributes f.id tag.plainAttributes
    | none => pure ()
  done

/-- The mode in a `select` inside these elements: a table around it matters, unless a template is
between them. -/
def selectMode (outer : List Frame) : Mode :=
  match outer.find? fun f => oneOf ["template", "table"] f.name with
  | some f => if isNamed "table" f.name then .inSelectInTable else .inSelect
  | none => .inSelect

/-- The mode that suits the open elements. -/
def suitableMode (b : Builder) : Mode :=
  go b.open_
where
  /-- The mode that the innermost telling element asks for. -/
  go : List Frame → Mode
    | [] => .inBody
    | f :: rest =>
      if f.name.space != .html then go rest
      else
        match f.name.base with
        | "td" => if rest.isEmpty then go rest else .inCell
        | "th" => if rest.isEmpty then go rest else .inCell
        | "tr" => .inRow
        | "tbody" => .inTableBody
        | "thead" => .inTableBody
        | "tfoot" => .inTableBody
        | "caption" => .inCaption
        | "colgroup" => .inColumnGroup
        | "table" => .inTable
        | "template" => b.templateModes.head?.getD .inBody
        | "select" => selectMode rest
        | "head" => if rest.isEmpty then go rest else .inHead
        | "body" => .inBody
        | "frameset" => .inFrameset
        | "html" => if b.head.isNone then .beforeHead else .afterHead
        | _ => go rest

/-- Go to the mode that suits the open elements. -/
def resetMode : Build Unit := modify fun b => { b with mode := suitableMode b }

/-- Close the innermost element `name` and everything in it, and look at the token again in the mode
that suits what is still open. -/
def leave (name : String) (token : Token) : Build Reply := do
  popThroughNamed name
  resetMode
  retry token

/-- Close a template and everything in it. -/
def closeTemplate : Build Unit := do
  popThroughNamed "template"
  clearToMarker
  modify fun b => { b with templateModes := b.templateModes.drop 1 }
  resetMode

/-! ## Before the body -/

/-- Before anything but blanks, comments and a document type. -/
def ruleInitial (token : Token) : Build Reply :=
  match token with
  | .text true _ => done
  | .comment text => do
    appendCommentTo (← get).forest.document.id text
    done
  | .doctype d => do
    let id ← createNode
      (.doctype (d.name.getD "") (d.publicId.getD "") (d.systemId.getD ""))
    editForest fun f => f.append f.document.id id
    modify fun b => { b with quirky := d.isQuirky, mode := .beforeHtml }
    done
  | _ => do
    modify fun b => { b with quirky := true }
    retryIn .beforeHtml token

/-- Add the root element and open it. -/
def openRoot (attributes : List Attribute) : Build Unit := do
  let name := QName.html "html"
  let id ← createElement name attributes
  editForest fun f => f.append f.document.id id
  editOpen (⟨id, name⟩ :: ·)

/-- Before the root element. -/
def ruleBeforeHtml (token : Token) : Build Reply := do
  let implied : Build Reply := do
    openRoot []
    retryIn .beforeHead token
  match token with
  | .text true _ => done
  | .doctype _ => done
  | .comment text =>
    appendCommentTo (← get).forest.document.id text
    done
  | .startTag tag =>
    if tag.name == "html" then
      openRoot tag.plainAttributes
      setMode .beforeHead
      done
    else implied
  | .endTag name => if ["head", "body", "html", "br"].contains name then implied else done
  | _ => implied

/-- Open the head and remember it. -/
def openHead (attributes : List Attribute) : Build Unit := do
  let frame ← openElement (.html "head") attributes
  modify fun b => { b with head := some frame.id, mode := .inHead }

/-- Before the head. -/
def ruleBeforeHead (token : Token) : Build Reply := do
  let implied : Build Reply := do
    openHead []
    retry token
  match token with
  | .text true _ => done
  | .doctype _ => done
  | .comment text =>
    appendComment text
    done
  | .startTag tag =>
    if tag.name == "html" then mergeRoot tag
    else if tag.name == "head" then
      openHead tag.plainAttributes
      done
    else implied
  | .endTag name => if ["head", "body", "html", "br"].contains name then implied else done
  | _ => implied

/-- In the head. -/
def ruleInHead (token : Token) : Build Reply := do
  let implied : Build Reply := do
    pop
    retryIn .afterHead token
  match token with
  | .text true chars =>
    appendText chars
    done
  | .doctype _ => done
  | .comment text =>
    appendComment text
    done
  | .startTag tag =>
    match tag.name with
    | "html" => mergeRoot tag
    | "base" | "basefont" | "bgsound" | "link" | "meta" =>
      addTag tag
      done
    | "title" => openText tag
    | "noframes" | "style" | "noscript" => openRaw tag
    | "script" =>
      openTag tag
      readContent .script
      done
    | "template" =>
      openTag tag
      pushMarker
      framesNotOk
      modify fun b =>
        { b with mode := .inTemplate, templateModes := .inTemplate :: b.templateModes }
      done
    | "head" => done
    | _ => implied
  | .endTag name =>
    match name with
    | "head" =>
      pop
      setMode .afterHead
      done
    | "body" | "html" | "br" => implied
    | "template" =>
      if (← get).inTemplate then
        popWhile hasImpliedEndInTemplate
        closeTemplate
      done
    | _ => done
  | _ => implied

/-- The start tags that belong into the head. -/
def headTags : List String :=
  ["base", "basefont", "bgsound", "link", "meta", "noframes", "script", "style", "template",
    "title"]

/-- Between the head and the body. -/
def ruleAfterHead (token : Token) : Build Reply := do
  let implied : Build Reply := do
    openImplied "body"
    retryIn .inBody token
  match token with
  | .text true chars =>
    appendText chars
    done
  | .doctype _ => done
  | .comment text =>
    appendComment text
    done
  | .startTag tag =>
    if tag.name == "html" then mergeRoot tag
    else if tag.name == "body" then
      openTag tag
      framesNotOk
      setMode .inBody
      done
    else if tag.name == "frameset" then
      openTag tag
      setMode .inFrameset
      done
    else if headTags.contains tag.name then
      match (← get).head with
      | none => ruleInHead token
      | some id =>
        editOpen (⟨id, .html "head"⟩ :: ·)
        let reply ← ruleInHead token
        removeOpen id
        return reply
    else if tag.name == "head" then done
    else implied
  | .endTag name =>
    if name == "template" then ruleInHead token
    else if ["body", "html", "br"].contains name then implied
    else done
  | _ => implied

/-! ## In a template -/

/-- The end of the document inside a template closes the template first. -/
def endInTemplate : Build Reply := do
  if (← get).inTemplate then
    closeTemplate
    retry .eof
  else done

/-! ## In the body -/

/-- Start tags of blocks, which close an open paragraph. -/
def blockTags : List String :=
  ["address", "article", "aside", "blockquote", "center", "details", "dialog", "dir", "div", "dl",
    "fieldset", "figcaption", "figure", "footer", "header", "hgroup", "main", "menu", "nav", "ol",
    "p", "search", "section", "summary", "ul"]

/-- End tags of blocks. -/
def blockEndTags : List String :=
  ["address", "article", "aside", "blockquote", "button", "center", "details", "dialog", "dir",
    "div", "dl", "fieldset", "figcaption", "figure", "footer", "header", "hgroup", "listing",
    "main", "menu", "nav", "ol", "pre", "search", "section", "summary", "ul"]

/-- Tags of formatting elements, apart from `a` and `nobr`. -/
def formattingTags : List String :=
  ["b", "big", "code", "em", "font", "i", "s", "small", "strike", "strong", "tt", "u"]

/-- Start tags of table parts, which mean nothing outside a table. -/
def tablePartTags : List String :=
  ["caption", "col", "colgroup", "frame", "head", "tbody", "td", "tfoot", "th", "thead", "tr"]

/-- Open an element of foreign content. -/
def openForeign (name : QName) (tag : Tag) : Build Reply := do
  let attributes := tag.foreignAttributes name.space
  if tag.selfClosing then
    let _ ← addElement name attributes
    done
  else
    let _ ← openElement name attributes
    done

/-- Close the list items that a new one ends, and an open paragraph. -/
def closeListItem (names : List String) : Build Unit := do
  framesNotOk
  let rec search : List Frame → Option String
    | [] => none
    | f :: rest =>
      if oneOf names f.name then some f.name.base
      else if stopsListSearch f.name then none
      else search rest
  match search (← get).open_ with
  | some name =>
    closeImpliedExcept name
    popThroughNamed name
  | none => pure ()
  closeParagraphInScope

/-- Close the innermost open element if it is the HTML element `name`. -/
def popIfNamed (name : String) : Build Unit := do
  if (← get).currentIs (isNamed name) then pop

/-- Add the HTML element of a start tag that never has content to a paragraph of the body. -/
def addVoid (tag : Tag) : Build Reply := do
  reconstructFormatting
  addTag tag
  framesNotOk
  done

/-- A start tag in the body. -/
def startTagInBody (tag : Tag) : Build Reply := do
  let plain : Build Reply := do
    reconstructFormatting
    openTag tag
    done
  if headTags.contains tag.name then ruleInHead (.startTag tag)
  else if blockTags.contains tag.name then
    closeParagraphInScope
    openTag tag
    done
  else if headings.contains tag.name then
    closeParagraphInScope
    if (← get).currentIs (oneOf headings) then pop
    openTag tag
    done
  else if formattingTags.contains tag.name then
    reconstructFormatting
    openFormatting tag
    done
  else if tablePartTags.contains tag.name then done
  else
    match tag.name with
    | "html" => mergeRoot tag
    | "body" =>
      let b ← get
      match b.body? with
      | some f =>
        if b.inTemplate then done
        else
          framesNotOk
          addMissingAttributes f.id tag.plainAttributes
          done
      | none => done
    | "frameset" =>
      let b ← get
      match b.framesOk, b.body? with
      | true, some f =>
        editForest (·.detach f.id)
        editOpen fun stack => stack.drop (stack.length - 1)
        openTag tag
        setMode .inFrameset
        done
      | _, _ => done
    | "pre" | "listing" =>
      closeParagraphInScope
      openTag tag
      modify fun b => { b with dropLineFeed := true, framesOk := false }
      done
    | "form" =>
      let b ← get
      if b.form.isSome && !b.inTemplate then done
      else
        closeParagraphInScope
        let frame ← openElement (.html "form") tag.plainAttributes
        if !b.inTemplate then modify fun b => { b with form := some frame.id }
        done
    | "li" =>
      closeListItem ["li"]
      openTag tag
      done
    | "dd" | "dt" =>
      closeListItem ["dd", "dt"]
      openTag tag
      done
    | "plaintext" =>
      closeParagraphInScope
      openTag tag
      modify fun b => { b with content := .plain }
      done
    | "button" =>
      if (← get).hasInScope boundsScope "button" then
        closeImplied
        popThroughNamed "button"
      reconstructFormatting
      openTag tag
      framesNotOk
      done
    | "a" =>
      closeOpenLink
      reconstructFormatting
      openFormatting tag
      done
    | "nobr" =>
      reconstructFormatting
      if (← get).hasInScope boundsScope "nobr" then
        adopt "nobr"
        reconstructFormatting
      openFormatting tag
      done
    | "applet" | "marquee" | "object" =>
      reconstructFormatting
      openTag tag
      pushMarker
      framesNotOk
      done
    | "table" =>
      if !(← get).quirky then closeParagraphInScope
      openTag tag
      framesNotOk
      setMode .inTable
      done
    | "area" | "br" | "embed" | "img" | "keygen" | "wbr" => addVoid tag
    | "input" =>
      reconstructFormatting
      addTag tag
      let hidden := (tag.attribute? "type").any (Text.sameLetters · "hidden")
      if !hidden then framesNotOk
      done
    | "param" | "source" | "track" =>
      addTag tag
      done
    | "hr" =>
      closeParagraphInScope
      addTag tag
      framesNotOk
      done
    | "image" => addVoid { tag with name := "img" }
    | "textarea" =>
      openTag tag
      modify fun b => { b with dropLineFeed := true, framesOk := false }
      readContent (.references "textarea")
      done
    | "xmp" =>
      closeParagraphInScope
      reconstructFormatting
      framesNotOk
      openRaw tag
    | "iframe" =>
      framesNotOk
      openRaw tag
    | "noembed" | "noscript" => openRaw tag
    | "select" =>
      reconstructFormatting
      openTag tag
      framesNotOk
      -- The mode is not `inBody` where another rule falls back on this one.
      modify fun b => { b with mode := if b.mode.isInTable then .inSelectInTable else .inSelect }
      done
    | "option" | "optgroup" =>
      popIfNamed "option"
      plain
    | "rb" | "rtc" =>
      if (← get).hasInScope boundsScope "ruby" then closeImplied
      openTag tag
      done
    | "rp" | "rt" =>
      if (← get).hasInScope boundsScope "ruby" then closeImpliedExcept "rtc"
      openTag tag
      done
    | "math" =>
      reconstructFormatting
      openForeign ⟨.mathml, none, "math"⟩ tag
    | "svg" =>
      reconstructFormatting
      openForeign ⟨.svg, none, "svg"⟩ tag
    | _ => plain

/-- An end tag in the body. -/
def endTagInBody (name : String) : Build Reply := do
  let b ← get
  if blockEndTags.contains name then
    if b.hasInScope boundsScope name then
      closeImplied
      popThroughNamed name
    done
  else if headings.contains name then
    if b.inScope boundsScope (fun f => oneOf headings f.name) then
      closeImplied
      popThrough (oneOf headings)
    done
  else if formattingTags.contains name then
    adopt name
    done
  else
    match name with
    | "template" => ruleInHead (.endTag name)
    | "a" | "nobr" =>
      adopt name
      done
    | "body" =>
      if b.hasInScope boundsScope "body" then setMode .afterBody
      done
    | "html" =>
      if b.hasInScope boundsScope "body" then retryIn .afterBody (.endTag name)
      else done
    | "form" =>
      if b.inTemplate then
        if b.hasInScope boundsScope "form" then
          closeImplied
          popThroughNamed "form"
        done
      else
        modify fun b => { b with form := none }
        match b.form with
        | none => done
        | some id =>
          if b.inScope boundsScope (·.id == id) then
            closeImplied
            removeOpen id
          done
    | "p" =>
      if !b.hasInScope boundsButtonScope "p" then openImplied "p"
      closeParagraph
      done
    | "li" =>
      if b.hasInScope boundsListScope "li" then
        closeImpliedExcept "li"
        popThroughNamed "li"
      done
    | "dd" | "dt" =>
      if b.hasInScope boundsScope name then
        closeImpliedExcept name
        popThroughNamed name
      done
    | "applet" | "marquee" | "object" =>
      if b.hasInScope boundsScope name then
        closeImplied
        popThroughNamed name
        clearToMarker
      done
    | "br" => startTagInBody ⟨"br", [], false⟩
    | _ =>
      closeOrdinary name
      done

/-- In the body. -/
def ruleInBody (token : Token) : Build Reply := do
  match token with
  | .nul => done
  | .text blank chars =>
    reconstructFormatting
    if !blank then framesNotOk
    appendText chars
    done
  | .comment text =>
    appendComment text
    done
  | .doctype _ => done
  | .startTag tag => startTagInBody tag
  | .endTag name => endTagInBody name
  | .eof => if (← get).templateModes.isEmpty then done else endInTemplate

/-- In an element whose content is text. -/
def ruleText (token : Token) : Build Reply := do
  match token with
  | .text _ chars =>
    appendText chars
    done
  | .eof =>
    pop
    retryIn (← get).returnMode .eof
  | .endTag _ =>
    pop
    setMode (← get).returnMode
    done
  | _ => done

/-! ## In tables -/

/-- Use the rules of the body, moving what is misplaced out of the table. -/
def moveOutOfTable (token : Token) : Build Reply := do
  modify fun b => { b with moveOut := true }
  let reply ← ruleInBody token
  modify fun b => { b with moveOut := false }
  return reply

/-- Close the elements inside the innermost table. -/
def closeToTable : Build Unit := popWhile fun q => !oneOf ["table", "template", "html"] q

/-- Close the elements inside the innermost row group. -/
def closeToRowGroup : Build Unit :=
  popWhile fun q => !oneOf ["tbody", "tfoot", "thead", "template", "html"] q

/-- Close the elements inside the innermost row. -/
def closeToRow : Build Unit := popWhile fun q => !oneOf ["tr", "template", "html"] q

/-- Text in a table is gathered, if the innermost open element is a table part. -/
def gatherTableText (token : Token) : Build Reply := do
  let b ← get
  if b.currentIs movesContentOut then
    modify fun b => { b with returnMode := b.mode, tableText := [] }
    retryIn .inTableText token
  else moveOutOfTable token

/-- In a table. -/
def ruleInTable (token : Token) : Build Reply := do
  match token with
  | .nul => gatherTableText token
  | .text _ _ => gatherTableText token
  | .doctype _ => done
  | .comment text =>
    appendComment text
    done
  | .startTag tag =>
    match tag.name with
    | "caption" =>
      closeToTable
      pushMarker
      openTag tag
      setMode .inCaption
      done
    | "colgroup" =>
      closeToTable
      openTag tag
      setMode .inColumnGroup
      done
    | "col" =>
      closeToTable
      openImplied "colgroup"
      retryIn .inColumnGroup token
    | "tbody" | "tfoot" | "thead" =>
      closeToTable
      openTag tag
      setMode .inTableBody
      done
    | "td" | "th" | "tr" =>
      closeToTable
      openImplied "tbody"
      retryIn .inTableBody token
    | "table" =>
      if (← get).hasInScope boundsTableScope "table" then leave "table" token else done
    | "style" | "script" | "template" => ruleInHead token
    | "input" =>
      if (tag.attribute? "type").any (Text.sameLetters · "hidden") then
        addTag tag
        done
      else moveOutOfTable token
    | "form" =>
      let b ← get
      if b.inTemplate || b.form.isSome then done
      else
        let id ← addElement (.html "form") tag.plainAttributes
        modify fun b => { b with form := some id }
        done
    | _ => moveOutOfTable token
  | .endTag name =>
    if name == "table" then
      if (← get).hasInScope boundsTableScope "table" then
        popThroughNamed "table"
        resetMode
      done
    else if ["body", "caption", "col", "colgroup", "html", "tbody", "td", "tfoot", "th", "thead",
        "tr"].contains name then done
    else if name == "template" then ruleInHead token
    else moveOutOfTable token
  | .eof => ruleInBody token

/-- Add the gathered text of a table: moved out of the table unless it is blank. -/
def flushTableText : List (Bool × List Char) → (outside : Bool) → Build Unit
  | [], _ => return
  | (blank, chars) :: rest, outside => do
    if outside then
      let _ ← moveOutOfTable (.text blank chars)
    else appendText chars
    flushTableText rest outside

/-- In the text of a table. -/
def ruleInTableText (token : Token) : Build Reply := do
  match token with
  | .nul => done
  | .text blank chars =>
    modify fun b => { b with tableText := b.tableText ++ [(blank, chars)] }
    done
  | _ =>
    let b ← get
    modify fun b => { b with tableText := [] }
    flushTableText b.tableText (b.tableText.any fun (blank, _) => !blank)
    retryIn b.returnMode token

/-- The parts that a caption and a cell do not reach into. -/
def rowParts : List String :=
  ["caption", "col", "colgroup", "tbody", "td", "tfoot", "th", "thead", "tr"]

/-- In a caption. -/
def ruleInCaption (token : Token) : Build Reply := do
  let close (again : Bool) : Build Reply := do
    if (← get).hasInScope boundsTableScope "caption" then
      closeImplied
      popThroughNamed "caption"
      clearToMarker
      setMode .inTable
      if again then retry token else done
    else done
  match token with
  | .startTag tag => if rowParts.contains tag.name then close true else ruleInBody token
  | .endTag name =>
    if name == "table" then close true
    else if name == "caption" then close false
    else if ["body", "col", "colgroup", "html", "tbody", "td", "tfoot", "th", "thead",
        "tr"].contains name then done
    else ruleInBody token
  | _ => ruleInBody token

/-- In a column group. -/
def ruleInColumnGroup (token : Token) : Build Reply := do
  let close : Build Reply := do
    if (← get).currentIs (isNamed "colgroup") then
      pop
      retryIn .inTable token
    else done
  match token with
  | .text true chars =>
    appendText chars
    done
  | .doctype _ => done
  | .comment text =>
    appendComment text
    done
  | .startTag tag =>
    match tag.name with
    | "html" => mergeRoot tag
    | "col" =>
      addTag tag
      done
    | "template" => ruleInHead token
    | _ => close
  | .endTag name =>
    match name with
    | "colgroup" =>
      if (← get).currentIs (isNamed "colgroup") then
        pop
        setMode .inTable
      done
    | "col" => done
    | "template" => ruleInHead token
    | _ => close
  | .eof => ruleInBody token
  | _ => close

/-- In a row group. -/
def ruleInTableBody (token : Token) : Build Reply := do
  let close : Build Reply := do
    if (← get).inScope boundsTableScope (fun f => oneOf ["table", "tbody", "tfoot"] f.name) then
      closeToRowGroup
      pop
      retryIn .inTable token
    else done
  match token with
  | .startTag tag =>
    match tag.name with
    | "tr" =>
      closeToRowGroup
      openTag tag
      setMode .inRow
      done
    | "td" | "th" =>
      closeToRowGroup
      openImplied "tr"
      retryIn .inRow token
    | "caption" | "col" | "colgroup" | "tbody" | "tfoot" | "thead" => close
    | _ => ruleInTable token
  | .endTag name =>
    match name with
    | "tbody" | "tfoot" | "thead" =>
      if (← get).hasInScope boundsTableScope name then
        closeToRowGroup
        pop
        setMode .inTable
      done
    | "table" => close
    | "body" | "caption" | "col" | "colgroup" | "html" | "td" | "th" | "tr" => done
    | _ => ruleInTable token
  | _ => ruleInTable token

/-- In a row. -/
def ruleInRow (token : Token) : Build Reply := do
  let close : Build Reply := do
    if (← get).hasInScope boundsTableScope "tr" then
      closeToRow
      pop
      retryIn .inTableBody token
    else done
  match token with
  | .startTag tag =>
    match tag.name with
    | "td" | "th" =>
      closeToRow
      openTag tag
      setMode .inCell
      pushMarker
      done
    | "caption" | "col" | "colgroup" | "tbody" | "tfoot" | "thead" | "tr" => close
    | _ => ruleInTable token
  | .endTag name =>
    match name with
    | "tr" =>
      if (← get).hasInScope boundsTableScope "tr" then
        closeToRow
        pop
        setMode .inTableBody
      done
    | "table" => close
    | "tbody" | "tfoot" | "thead" =>
      if (← get).hasInScope boundsTableScope name then close else done
    | "body" | "caption" | "col" | "colgroup" | "html" | "td" | "th" => done
    | _ => ruleInTable token
  | _ => ruleInTable token

/-- In a cell. -/
def ruleInCell (token : Token) : Build Reply := do
  let close : Build Reply := do
    closeImplied
    popThrough (oneOf ["td", "th"])
    clearToMarker
    retryIn .inRow token
  match token with
  | .startTag tag =>
    if rowParts.contains tag.name then
      if (← get).inScope boundsTableScope (fun f => oneOf ["td", "th"] f.name) then close
      else done
    else ruleInBody token
  | .endTag name =>
    match name with
    | "td" | "th" =>
      if (← get).hasInScope boundsTableScope name then
        closeImplied
        popThroughNamed name
        clearToMarker
        setMode .inRow
      done
    | "body" | "caption" | "col" | "colgroup" | "html" => done
    | "table" | "tbody" | "tfoot" | "thead" | "tr" =>
      if (← get).hasInScope boundsTableScope name then close else done
    | _ => ruleInBody token
  | _ => ruleInBody token

/-! ## In a `select` -/

/-- In a `select`: text, options and groups of them stay, and other elements leave only their
content. -/
def ruleInSelect (token : Token) : Build Reply := do
  let inSelectScope : Build Bool := return (← get).hasInScope boundsSelectScope "select"
  let close : Build Reply := do
    if ← inSelectScope then
      popThroughNamed "select"
      resetMode
    done
  match token with
  | .text _ chars =>
    appendText chars
    done
  | .comment text =>
    appendComment text
    done
  | .startTag tag =>
    match tag.name with
    | "html" => mergeRoot tag
    | "option" =>
      popIfNamed "option"
      openTag tag
      done
    | "optgroup" =>
      popIfNamed "option"
      popIfNamed "optgroup"
      openTag tag
      done
    | "hr" =>
      popIfNamed "option"
      popIfNamed "optgroup"
      addTag tag
      done
    | "select" => close
    | "input" | "keygen" | "textarea" => if ← inSelectScope then leave "select" token else done
    | "script" | "template" => ruleInHead token
    | _ => done
  | .endTag name =>
    match name with
    | "optgroup" =>
      let outer := (← get).open_.drop 1
      if (outer.head?.map fun f => isNamed "optgroup" f.name).getD false then popIfNamed "option"
      popIfNamed "optgroup"
      done
    | "option" =>
      popIfNamed "option"
      done
    | "select" => close
    | "template" => ruleInHead token
    | _ => done
  | .eof => ruleInBody token
  | _ => done

/-- In a `select` in a table: a tag of the table closes the `select`. -/
def ruleInSelectInTable (token : Token) : Build Reply := do
  let tableTags := ["caption", "table", "tbody", "td", "tfoot", "th", "thead", "tr"]
  match token with
  | .startTag tag =>
    if tableTags.contains tag.name then leave "select" token else ruleInSelect token
  | .endTag name =>
    if !tableTags.contains name then ruleInSelect token
    else if (← get).hasInScope boundsTableScope name then leave "select" token
    else done
  | _ => ruleInSelect token

/-! ## Templates -/

/-- Directly in a template: the first tag decides what the template holds. -/
def ruleInTemplate (token : Token) : Build Reply := do
  let as_ (mode : Mode) : Build Reply := do
    modify fun b => { b with templateModes := mode :: b.templateModes.drop 1 }
    retryIn mode token
  match token with
  | .nul => ruleInBody token
  | .text _ _ => ruleInBody token
  | .comment _ => ruleInBody token
  | .doctype _ => done
  | .startTag tag =>
    if headTags.contains tag.name then ruleInHead token
    else
      match tag.name with
      | "caption" | "colgroup" | "tbody" | "tfoot" | "thead" => as_ .inTable
      | "col" => as_ .inColumnGroup
      | "tr" => as_ .inTableBody
      | "td" | "th" => as_ .inRow
      | _ => as_ .inBody
  | .endTag name => if name == "template" then ruleInHead token else done
  | .eof => endInTemplate

/-! ## After the body, and frame sets -/

/-- After the body. -/
def ruleAfterBody (token : Token) : Build Reply := do
  match token with
  | .text true _ => ruleInBody token
  | .doctype _ => done
  | .comment text =>
    match (← get).root? with
    | some f => appendCommentTo f.id text
    | none => pure ()
    done
  | .startTag tag => if tag.name == "html" then mergeRoot tag else retryIn .inBody token
  | .endTag name =>
    if name == "html" then
      setMode .afterAfterBody
      done
    else retryIn .inBody token
  | .eof => done
  | _ => retryIn .inBody token

/-- In a frame set. -/
def ruleInFrameset (token : Token) : Build Reply := do
  match token with
  | .text true chars =>
    appendText chars
    done
  | .comment text =>
    appendComment text
    done
  | .startTag tag =>
    match tag.name with
    | "html" => mergeRoot tag
    | "frameset" =>
      openTag tag
      done
    | "frame" =>
      addTag tag
      done
    | "noframes" => ruleInHead token
    | _ => done
  | .endTag name =>
    if name == "frameset" then
      if (← get).open_.length != 1 then
        pop
        if !(← get).currentIs (isNamed "frameset") then setMode .afterFrameset
    done
  | _ => done

/-- After a frame set. -/
def ruleAfterFrameset (token : Token) : Build Reply := do
  match token with
  | .text true chars =>
    appendText chars
    done
  | .comment text =>
    appendComment text
    done
  | .startTag tag =>
    if tag.name == "html" then mergeRoot tag
    else if tag.name == "noframes" then ruleInHead token
    else done
  | .endTag name =>
    if name == "html" then setMode .afterAfterFrameset
    done
  | _ => done

/-- After the end of the root element. -/
def ruleAfterAfterBody (token : Token) : Build Reply := do
  match token with
  | .text true _ => ruleInBody token
  | .doctype _ => done
  | .comment text =>
    appendCommentTo (← get).forest.document.id text
    done
  | .startTag tag => if tag.name == "html" then mergeRoot tag else retryIn .inBody token
  | .eof => done
  | _ => retryIn .inBody token

/-- After the end of a root element that holds a frame set. -/
def ruleAfterAfterFrameset (token : Token) : Build Reply := do
  match token with
  | .text true _ => ruleInBody token
  | .comment text =>
    appendCommentTo (← get).forest.document.id text
    done
  | .startTag tag =>
    if tag.name == "html" then mergeRoot tag
    else if tag.name == "noframes" then ruleInHead token
    else done
  | _ => done

/-- The rule of a mode. -/
def rule : Mode → Token → Build Reply
  | .initial => ruleInitial
  | .beforeHtml => ruleBeforeHtml
  | .beforeHead => ruleBeforeHead
  | .inHead => ruleInHead
  | .afterHead => ruleAfterHead
  | .inBody => ruleInBody
  | .text => ruleText
  | .inTable => ruleInTable
  | .inTableText => ruleInTableText
  | .inCaption => ruleInCaption
  | .inColumnGroup => ruleInColumnGroup
  | .inTableBody => ruleInTableBody
  | .inRow => ruleInRow
  | .inCell => ruleInCell
  | .inSelect => ruleInSelect
  | .inSelectInTable => ruleInSelectInTable
  | .inTemplate => ruleInTemplate
  | .afterBody => ruleAfterBody
  | .inFrameset => ruleInFrameset
  | .afterFrameset => ruleAfterFrameset
  | .afterAfterBody => ruleAfterAfterBody
  | .afterAfterFrameset => ruleAfterAfterFrameset

/-! ## Foreign content -/

/-- Whether a token falls under the rules of foreign content. -/
def Builder.isForeign (b : Builder) (token : Token) : Bool :=
  match b.current? with
  | none => false
  | some f =>
    let isText := match token with
      | .text _ _ => true
      | .nul => true
      | _ => false
    let tagName := match token with
      | .startTag tag => some tag.name
      | _ => none
    token != .eof && f.name.space != .html &&
      !(isMathText f.name && (isText || tagName.any fun n => n != "mglyph" && n != "malignmark")) &&
      !(isSvgIsland f.name && (isText || tagName.isSome)) &&
      !(f.name.space == .mathml && f.name.base == "annotation-xml" && tagName == some "svg")

/-- Leave foreign content and use the rule of the mode. -/
def leaveForeign (token : Token) : Build Reply := do
  popWhile fun q => !(q.space == .html || isMathText q || isSvgIsland q)
  rule (← get).mode token

/-- An end tag in foreign content: it closes the innermost element of that name, if no HTML element
is inside it. -/
def endForeign (name : String) : (first : Bool) → List Frame → Build Reply
  | _, [] => done
  | _, [_] => done
  | first, f :: rest => do
    if !first && f.name.space == .html then rule (← get).mode (.endTag name)
    else if Text.lowerLetters f.name.base == name then
      editOpen fun _ => rest
      done
    else endForeign name false rest

/-- The rule of foreign content. -/
def ruleForeign (token : Token) : Build Reply := do
  match token with
  | .nul =>
    appendText [replacement]
    done
  | .text blank chars =>
    if !blank then framesNotOk
    appendText chars
    done
  | .comment text =>
    appendComment text
    done
  | .doctype _ => done
  | .startTag tag =>
    let leaves := leavesForeign.contains tag.name ||
      (tag.name == "font" &&
        ["color", "face", "size"].any fun a => (tag.attribute? a).isSome)
    if leaves then leaveForeign token
    else
      match (← get).current? with
      | none => done
      | some f =>
        let base :=
          if f.name.space == .svg then respell svgElementNames tag.name else tag.name
        openForeign ⟨f.name.space, none, base⟩ tag
  | .endTag name =>
    if name == "br" || name == "p" then leaveForeign token
    else endForeign name true (← get).open_
  | .eof => done

end Stencil.Html
