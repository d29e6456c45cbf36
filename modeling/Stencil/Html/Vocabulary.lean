import Stencil.Html.Token
import Stencil.Markup.Node

/-!
# The vocabulary of HTML

The groups of elements that document building tells apart, the names that `svg` and `math` content
spells with capitals, the attributes that belong to a namespace there, and the document types that
ask for the rules of old browsers.
-/

namespace Stencil.Html
open Markup

/-- An HTML element whose name is in the list. -/
def oneOf (names : List String) (q : QName) : Bool := q.space == .html && names.contains q.base

/-- The HTML element `name`. -/
def isNamed (name : String) (q : QName) : Bool := q.space == .html && q.base == name

/-! ## Groups of elements -/

/-- The headings `h1` to `h6`. -/
def headings : List String := ["h1", "h2", "h3", "h4", "h5", "h6"]

/-- Elements that stop the search for an element that an end tag could close. -/
def specialNames : List String :=
  ["address", "applet", "area", "article", "aside", "base", "basefont", "bgsound", "blockquote",
    "body", "br", "button", "caption", "center", "col", "colgroup", "dd", "details", "dir", "div",
    "dl", "dt", "embed", "fieldset", "figcaption", "figure", "footer", "form", "frame",
    "frameset", "h1", "h2", "h3", "h4", "h5", "h6", "head", "header", "hgroup", "hr", "html",
    "iframe", "img", "input", "isindex", "li", "link", "listing", "main", "marquee", "menu",
    "meta", "nav", "noembed", "noframes", "noscript", "object", "ol", "p", "param", "plaintext",
    "pre", "script", "section", "select", "source", "style", "summary", "table", "tbody", "td",
    "template", "textarea", "tfoot", "th", "thead", "title", "tr", "track", "ul", "wbr", "xmp"]

/-- Whether an element is special. -/
def isSpecial (q : QName) : Bool := oneOf specialNames q

/-- Special elements that also stop the search for an open list item. -/
def stopsListSearch (q : QName) : Bool := isSpecial q && !oneOf ["address", "div", "p"] q

/-- Elements of `math` content that hold ordinary text. -/
def isMathText (q : QName) : Bool :=
  q.space == .mathml && ["mi", "mo", "mn", "ms", "mtext"].contains q.base

/-- Elements of `svg` content that hold HTML. -/
def isSvgIsland (q : QName) : Bool :=
  q.space == .svg && ["foreignObject", "desc", "title"].contains q.base

/-- The elements that bound an ordinary scope. -/
def boundsScope (q : QName) : Bool :=
  oneOf ["applet", "caption", "html", "table", "td", "th", "marquee", "object", "template"] q ||
    isMathText q || isSvgIsland q

/-- The elements that bound the scope of a list item. -/
def boundsListScope (q : QName) : Bool := boundsScope q || oneOf ["ol", "ul"] q

/-- The elements that bound the scope of a button. -/
def boundsButtonScope (q : QName) : Bool := boundsScope q || isNamed "button" q

/-- The elements that bound the scope of a table part. -/
def boundsTableScope (q : QName) : Bool := oneOf ["html", "table", "template"] q

/-- The elements that bound the scope of a `select`: all that it does not hold itself. -/
def boundsSelectScope (q : QName) : Bool := !oneOf ["optgroup", "option"] q

/-- Elements whose end tag may be missing. -/
def hasImpliedEnd (q : QName) : Bool :=
  oneOf ["dd", "dt", "li", "optgroup", "option", "p", "rb", "rp", "rt", "rtc"] q

/-- Elements whose end tag may be missing at the end of a template. -/
def hasImpliedEndInTemplate (q : QName) : Bool :=
  hasImpliedEnd q ||
    oneOf ["caption", "colgroup", "tbody", "td", "tfoot", "th", "thead", "tr"] q

/-- Table parts whose misplaced content is moved before the table. -/
def movesContentOut (q : QName) : Bool := oneOf ["table", "tbody", "tfoot", "thead", "tr"] q

/-- The elements behind whose end the rules that apply are found out anew. -/
def isEnclosure (q : QName) : Bool := oneOf ["select", "table", "template"] q

/-- Start tags that leave foreign content. -/
def leavesForeign : List String :=
  ["b", "big", "blockquote", "body", "br", "center", "code", "dd", "div", "dl", "dt", "em",
    "embed", "h1", "h2", "h3", "h4", "h5", "h6", "head", "hr", "i", "img", "li", "listing",
    "menu", "meta", "nobr", "ol", "p", "pre", "ruby", "s", "small", "span", "strong", "strike",
    "sub", "sup", "table", "tt", "u", "ul", "var"]

/-! ## Foreign names -/

/-- The names of `svg` elements that hold capitals. -/
def svgElementNames : List String :=
  ["altGlyph", "altGlyphDef", "altGlyphItem", "animateColor", "animateMotion",
    "animateTransform", "clipPath", "feBlend", "feColorMatrix", "feComponentTransfer",
    "feComposite", "feConvolveMatrix", "feDiffuseLighting", "feDisplacementMap",
    "feDistantLight", "feDropShadow", "feFlood", "feFuncA", "feFuncB", "feFuncG", "feFuncR",
    "feGaussianBlur", "feImage", "feMerge", "feMergeNode", "feMorphology", "feOffset",
    "fePointLight", "feSpecularLighting", "feSpotLight", "feTile", "feTurbulence",
    "foreignObject", "glyphRef", "linearGradient", "radialGradient", "textPath"]

/-- The names of `svg` attributes that hold capitals. -/
def svgAttributeNames : List String :=
  ["attributeName", "attributeType", "baseFrequency", "baseProfile", "calcMode",
    "clipPathUnits", "diffuseConstant", "edgeMode", "filterUnits", "glyphRef",
    "gradientTransform", "gradientUnits", "kernelMatrix", "kernelUnitLength", "keyPoints",
    "keySplines", "keyTimes", "lengthAdjust", "limitingConeAngle", "markerHeight",
    "markerUnits", "markerWidth", "maskContentUnits", "maskUnits", "numOctaves", "pathLength",
    "patternContentUnits", "patternTransform", "patternUnits", "pointsAtX", "pointsAtY",
    "pointsAtZ", "preserveAlpha", "preserveAspectRatio", "primitiveUnits", "refX", "refY",
    "repeatCount", "repeatDur", "requiredExtensions", "requiredFeatures", "specularConstant",
    "specularExponent", "spreadMethod", "startOffset", "stdDeviation", "stitchTiles",
    "surfaceScale", "systemLanguage", "tableValues", "targetX", "targetY", "textLength",
    "viewBox", "viewTarget", "xChannelSelector", "yChannelSelector", "zoomAndPan"]

/-- The spelling of a name among those with capitals; other names are kept. -/
def respell (spellings : List String) (name : String) : String :=
  (spellings.find? fun s => Text.lowerLetters s == name).getD name

/-- The attributes that belong to a namespace in foreign content. -/
def foreignAttributes : List (String × QName) :=
  [("xlink:actuate", ⟨.xlink, some "xlink", "actuate"⟩),
    ("xlink:arcrole", ⟨.xlink, some "xlink", "arcrole"⟩),
    ("xlink:href", ⟨.xlink, some "xlink", "href"⟩),
    ("xlink:role", ⟨.xlink, some "xlink", "role"⟩),
    ("xlink:show", ⟨.xlink, some "xlink", "show"⟩),
    ("xlink:title", ⟨.xlink, some "xlink", "title"⟩),
    ("xlink:type", ⟨.xlink, some "xlink", "type"⟩),
    ("xml:lang", ⟨.xml, some "xml", "lang"⟩),
    ("xml:space", ⟨.xml, some "xml", "space"⟩),
    ("xmlns", ⟨.xmlns, none, "xmlns"⟩),
    ("xmlns:xlink", ⟨.xmlns, some "xmlns", "xlink"⟩)]

/-- The attributes of a tag as attributes of an HTML element. -/
def Tag.plainAttributes (tag : Tag) : List Attribute :=
  tag.attributes.map fun (name, value) => ⟨.plain name, value⟩

/-- The attributes of a tag as attributes of an element of foreign content. -/
def Tag.foreignAttributes (tag : Tag) (space : Space) : List Attribute :=
  tag.attributes.map fun (name, value) =>
    let spelt := match space with
      | .svg => respell svgAttributeNames name
      | .mathml => respell ["definitionURL"] name
      | _ => name
    ⟨(Html.foreignAttributes.lookup spelt).getD (.plain spelt), value⟩

/-- The value of an attribute of the tag. -/
def Tag.attribute? (tag : Tag) (name : String) : Option String := tag.attributes.lookup name

/-! ## Document types of old browsers -/

/-- Beginnings of public identifiers that ask for the rules of old browsers. -/
def quirkyPublicStems : List String :=
  ["-//advasoft ltd//dtd html 3.0 aswedit + extensions//",
    "-//as//dtd html 3.0 aswedit + extensions//",
    "-//ietf//dtd html 2.0 level 1//", "-//ietf//dtd html 2.0 level 2//",
    "-//ietf//dtd html 2.0 strict level 1//", "-//ietf//dtd html 2.0 strict level 2//",
    "-//ietf//dtd html 2.0 strict//", "-//ietf//dtd html 2.0//", "-//ietf//dtd html 2.1e//",
    "-//ietf//dtd html 3.0//", "-//ietf//dtd html 3.2 final//", "-//ietf//dtd html 3.2//",
    "-//ietf//dtd html 3//", "-//ietf//dtd html level 0//", "-//ietf//dtd html level 1//",
    "-//ietf//dtd html level 2//", "-//ietf//dtd html level 3//",
    "-//ietf//dtd html strict level 0//", "-//ietf//dtd html strict level 1//",
    "-//ietf//dtd html strict level 2//", "-//ietf//dtd html strict level 3//",
    "-//ietf//dtd html strict//", "-//ietf//dtd html//", "-//metrius//dtd metrius presentational//",
    "-//microsoft//dtd internet explorer 2.0 html strict//",
    "-//microsoft//dtd internet explorer 2.0 html//",
    "-//microsoft//dtd internet explorer 2.0 tables//",
    "-//microsoft//dtd internet explorer 3.0 html strict//",
    "-//microsoft//dtd internet explorer 3.0 html//",
    "-//microsoft//dtd internet explorer 3.0 tables//", "-//netscape comm. corp.//dtd html//",
    "-//netscape comm. corp.//dtd strict html//", "-//o'reilly and associates//dtd html 2.0//",
    "-//o'reilly and associates//dtd html extended 1.0//",
    "-//o'reilly and associates//dtd html extended relaxed 1.0//",
    "-//softquad software//dtd hotmetal pro 6.0::19990601::extensions to html 4.0//",
    "-//softquad//dtd hotmetal pro 4.0::19971010::extensions to html 4.0//",
    "-//spyglass//dtd html 2.0 extended//", "-//sq//dtd html 2.0 hotmetal + extensions//",
    "-//sun microsystems corp.//dtd hotjava html//",
    "-//sun microsystems corp.//dtd hotjava strict html//",
    "-//w3c//dtd html 3 1995-03-24//", "-//w3c//dtd html 3.2 draft//",
    "-//w3c//dtd html 3.2 final//", "-//w3c//dtd html 3.2//", "-//w3c//dtd html 3.2s draft//",
    "-//w3c//dtd html 4.0 frameset//", "-//w3c//dtd html 4.0 transitional//",
    "-//w3c//dtd html experimental 19960712//", "-//w3c//dtd html experimental 970421//",
    "-//w3c//dtd w3 html//", "-//w3o//dtd w3 html 3.0//",
    "-//webtechs//dtd mozilla html 2.0//", "-//webtechs//dtd mozilla html//"]

/-- Public identifiers that ask for the rules of old browsers. -/
def quirkyPublicIds : List String :=
  ["-//w3o//dtd w3 html strict 3.0//en//", "-/w3c/dtd html 4.0 transitional/en", "html"]

/-- Beginnings of public identifiers that do so without a system identifier. -/
def quirkyStemsAlone : List String :=
  ["-//w3c//dtd html 4.01 frameset//", "-//w3c//dtd html 4.01 transitional//"]

/-- Whether a document type asks for the rules of old browsers. -/
def Doctype.isQuirky (d : Doctype) : Bool :=
  let publicId := d.publicId.map Text.lowerLetters
  let systemId := d.systemId.map Text.lowerLetters
  let beginsWith (stems : List String) (s : String) : Bool :=
    stems.any fun stem => Text.startsWith stem.toList s.toList
  d.broken || d.name != some "html" ||
    (match publicId with
      | some p =>
        quirkyPublicIds.contains p || beginsWith quirkyPublicStems p ||
          (systemId.isNone && beginsWith quirkyStemsAlone p)
      | none => false) ||
    systemId == some "http://www.ibm.com/data/dtd/v11/ibmxhtml1-transitional.dtd"

end Stencil.Html
