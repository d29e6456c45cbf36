import Stencil.Text.Letters

/-!
# Faults of XML templates

What can be wrong with the text of an XML template. A `Fault` is a `Cause` with the byte offset at
which it is reported: for a construct without an end and for an end tag that does not fit this is
its `<`, for attributes and references the byte behind the construct that holds them.
-/

namespace Stencil.Xml

/-- What is wrong with the number in a character reference. -/
inductive NumberFault where
  | signed
  | noDigits
  | badDigit
  | tooLarge
  | notAScalar (code : Nat)
  | zero
  deriving Repr, DecidableEq

/-- What is wrong with a reference. Offsets count bytes from the start of the text or attribute
value that holds it. -/
inductive ReferenceFault where
  | unknown (start stop : Nat) (name : String)
  | unfinished (start stop : Nat)
  | number (fault : NumberFault)
  deriving Repr, DecidableEq

/-- What is wrong with an attribute. Offsets count bytes from the start of the tag's name. -/
inductive AttributeFault where
  | duplicate (position earlier : Nat)
  | noValue (position : Nat)
  | noClosingQuote (position : Nat) (quote : Char)
  deriving Repr, DecidableEq

/-- What is wrong with a template. -/
inductive Cause where
  | unknownMarkup
  | openInstruction
  | openComment
  | openDoctype
  | openSection
  | openTag
  | unnamedDoctype
  | missingEnd (name : String)
  | mismatchedEnd (expected found : String)
  | unmatchedEnd (found : String)
  | attribute (fault : AttributeFault)
  | reference (fault : ReferenceFault)
  deriving Repr, DecidableEq

/-- A cause and the byte offset at which it is reported. -/
structure Fault where
  position : Nat
  cause : Cause
  deriving Repr, DecidableEq

/-! ## Wording -/

/-- The wording for a bad number. -/
def NumberFault.message : NumberFault → String
  | .signed => "unexpected number sign"
  | .noDigits => "cannot parse integer from empty string"
  | .badDigit => "invalid digit found in string"
  | .tooLarge => "number too large to fit in target type"
  | .notAScalar code => s!"`{code}` is not a valid codepoint"
  | .zero => "0x0 character is not permitted in XML"

/-- The wording for a bad reference. -/
def ReferenceFault.message : ReferenceFault → String
  | .unknown start stop name => s!"at {start}..{stop}: unrecognized entity `{name}`"
  | .unfinished start stop =>
    s!"Error while escaping character at range {start}..{stop}: Cannot find ';' after '&'"
  | .number fault => s!"invalid character reference: {fault.message}"

/-- The wording for a bad attribute. -/
def AttributeFault.message : AttributeFault → String
  | .duplicate position earlier =>
    s!"position {position}: duplicated attribute, previous declaration at position {earlier}"
  | .noValue position => s!"position {position}: `=` must be followed by an attribute value"
  | .noClosingQuote position quote =>
    s!"position {position}: missing closing quote `{quote}` in attribute value"

/-- The wording for each cause. -/
def Cause.message : Cause → String
  | .unknownMarkup => "syntax error: unknown or missed symbol in markup"
  | .openInstruction =>
    "syntax error: processing instruction or xml declaration not closed: `?>` not found before end of input"
  | .openComment => "syntax error: comment not closed: `-->` not found before end of input"
  | .openDoctype => "syntax error: DOCTYPE not closed: `>` not found before end of input"
  | .openSection => "syntax error: CDATA not closed: `]]>` not found before end of input"
  | .openTag => "syntax error: tag not closed: `>` not found before end of input"
  | .unnamedDoctype =>
    "ill-formed document: `<!DOCTYPE>` declaration does not contain a name of a document type"
  | .missingEnd name =>
    s!"ill-formed document: start tag not closed: `</{name}>` not found before end of input"
  | .mismatchedEnd expected found =>
    s!"ill-formed document: expected `</{expected}>`, but `</{found}>` was found"
  | .unmatchedEnd found =>
    s!"ill-formed document: close tag `</{found}>` does not match any open tag"
  | .attribute fault => s!"error while parsing attribute: {fault.message}"
  | .reference fault => fault.message

/-- The wording of a fault with its place. -/
def Fault.message (f : Fault) : String :=
  s!"malformed XML at byte {f.position}: {f.cause.message}"

end Stencil.Xml
