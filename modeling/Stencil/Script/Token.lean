import Stencil.Text.Letters
import Stencil.Text.Search

/-!
# Tokens of directive expressions

The longest token wins at every place. A number above the signed 64-bit range, a quote that is
never closed and any other character that starts no token make a lexeme without a token; a quote
that is never closed takes the rest of the text with it, unless a backslash at the end of a line
breaks it off. Every lexeme is a piece of the text, so the pieces and the blanks between them make
up the text again.
-/

namespace Stencil.Script

/-- A token of a directive expression. -/
inductive Token where
  | foreachWord
  | asWord
  | fatArrow
  | arrow
  | equals
  | openParen
  | closeParen
  | openBracket
  | closeBracket
  | var (name : String)
  | word (name : String)
  | quoted (text : String)
  | number (value : Nat)
  deriving Repr, DecidableEq

/-- A half-open range of byte offsets. -/
structure Span where
  start : Nat
  stop : Nat
  deriving Repr, DecidableEq, Inhabited

/-- The span moved up by an offset. -/
def Span.shift (s : Span) (offset : Nat) : Span := ⟨s.start + offset, s.stop + offset⟩

/-- A piece of a text, with the token that it spells, if any. -/
structure Lexeme where
  token? : Option Token
  span : Span
  deriving Repr, DecidableEq

/-! ## Characters -/

/-- Blanks between tokens. -/
def isGap (c : Char) : Bool := c == ' ' || c == '\t' || c == '\n' || c == '\r'

/-- Characters that a name can start with. -/
def startsName (c : Char) : Bool := Text.isLetter c || c == '_'

/-- Characters that a name can go on with. -/
def continuesName (c : Char) : Bool := startsName c || Text.isDigit c

/-! ## Lexing -/

/-- The number of name characters at the start of a text. -/
def nameLength (cs : List Char) : Nat := (cs.takeWhile continuesName).length

/-- The number of characters up to the closing quote, and whether there is one. Without one the
count runs to the end of the text or to a backslash that ends a line. -/
def quotedLength (quote : Char) : List Char → Bool × Nat
  | [] => (false, 0)
  | '\\' :: '\n' :: _ => (false, 1)
  | '\\' :: _ :: cs =>
    let (closed, n) := quotedLength quote cs
    (closed, n + 2)
  | c :: cs =>
    if c = quote then (true, 1)
    else
      let (closed, n) := quotedLength quote cs
      (closed, n + 1)

/-- The token of a name. -/
def nameToken (name : List Char) : Token :=
  let name := String.ofList name
  if name = "foreach" then .foreachWord
  else if name = "as" then .asWord
  else .word name

/-- The token of a run of digits. -/
def numberToken? (digits : List Char) : Option Token :=
  let n := Text.decimalValue digits
  if n < Nat.pow 2 63 then some (.number n) else none

/-- The token that starts with a mark and the number of characters behind the mark that belong to
it. -/
def markToken? (c : Char) (cs : List Char) : Option Token × Nat :=
  match c, cs with
  | '=', '>' :: _ => (some .fatArrow, 1)
  | '=', _ => (some .equals, 0)
  | '-', '>' :: _ => (some .arrow, 1)
  | '(', _ => (some .openParen, 0)
  | ')', _ => (some .closeParen, 0)
  | '[', _ => (some .openBracket, 0)
  | ']', _ => (some .closeBracket, 0)
  | _, _ => (none, 0)

/-- The token at the start of the text `c :: cs`, if there is one, and the number of characters of
`cs` that belong to the lexeme. -/
def nextToken? (c : Char) (cs : List Char) : Option Token × Nat :=
  if startsName c then
    let n := nameLength cs
    (some (nameToken (c :: cs.take n)), n)
  else if Text.isDigit c then
    let n := (cs.takeWhile Text.isDigit).length
    (numberToken? (c :: cs.take n), n)
  else if c = '$' ∧ cs.head?.any startsName then
    let n := nameLength cs
    (some (.var (String.ofList (cs.take n))), n)
  else if c = '"' ∨ c = '\'' then
    match quotedLength c cs with
    | (true, n) => (some (.quoted (String.ofList (cs.take (n - 1)))), n)
    | (false, n) => (none, n)
  else markToken? c cs

/-- The lexemes of a text that starts at the byte offset `position`. -/
def lexemesFrom (position : Nat) : List Char → List Lexeme
  | [] => []
  | c :: cs =>
    if isGap c then lexemesFrom (position + c.utf8Size) cs
    else
      let (token?, n) := nextToken? c cs
      let stop := position + Text.byteLength (c :: cs.take n)
      ⟨token?, ⟨position, stop⟩⟩ :: lexemesFrom stop (cs.drop n)
termination_by cs => cs.length
decreasing_by
  · exact Nat.lt_add_one _
  · exact Nat.lt_add_one_of_le (List.length_drop ▸ Nat.sub_le _ _)

/-- The lexemes of a text. -/
def lexemes (text : String) : List Lexeme := lexemesFrom 0 text.toList

/-- A lexeme that spells a token, as a pair. -/
def Lexeme.spelled? (l : Lexeme) : Option (Token × Span) := l.token?.map fun t => (t, l.span)

/-- The tokens of a text with their places; whatever spells no token is passed over. -/
def tokens (text : String) : List (Token × Span) := (lexemes text).filterMap Lexeme.spelled?

/-- The tokens of a text with their places, if all of it but blanks spells tokens. -/
def tokens? (text : String) : Option (List (Token × Span)) := (lexemes text).mapM Lexeme.spelled?

/-! ## Wording -/

/-- How a token is called in messages. -/
def Token.describe : Token → String
  | .foreachWord => "keyword 'foreach'"
  | .asWord => "keyword 'as'"
  | .fatArrow => "'=>'"
  | .arrow => "'->'"
  | .equals => "'='"
  | .openParen => "'('"
  | .closeParen => "')'"
  | .openBracket => "'['"
  | .closeBracket => "']'"
  | .var name => s!"variable '${name}'"
  | .word name => s!"identifier '{name}'"
  | .quoted text => s!"string '{text}'"
  | .number value => s!"number {value}"

end Stencil.Script
