import Stencil.Text.Blank

/-!
# Rows of a source text

A report shows rows of the text that it is about. Rows end at any of the characters that break
lines, a carriage return and a line feed together counting as one end. Places are counted in
characters.
-/

namespace Stencil.Report

/-- A row: the number of characters before it, and its characters with those that end it. -/
structure Row where
  offset : Nat
  content : List Char
  deriving Repr, DecidableEq, Inhabited

/-- The number of characters of a row. -/
def Row.length (r : Row) : Nat := r.content.length

/-- The offset behind a row. -/
def Row.stop (r : Row) : Nat := r.offset + r.length

/-- Whether the character at an offset is in a row. -/
def Row.holds (r : Row) (offset : Nat) : Bool := r.offset ≤ offset && offset < r.stop

/-- Whether a character ends a row. -/
def breaksRow (c : Char) : Bool :=
  c == '\r' || c == '\n' || c == '\x0b' || c == '\x0c' || c == '\u0085' || c == '\u2028' ||
    c == '\u2029'

/-- The contents of the rows of a text. -/
def splitRows : List Char → List (List Char)
  | [] => []
  | '\r' :: '\n' :: cs => ['\r', '\n'] :: splitRows cs
  | c :: cs =>
    if breaksRow c then [c] :: splitRows cs
    else
      match splitRows cs with
      | row :: rest => (c :: row) :: rest
      | [] => [[c]]

/-- Rows with their offsets, from an offset on. -/
def placeRows (offset : Nat) : List (List Char) → List Row
  | [] => []
  | content :: rest => ⟨offset, content⟩ :: placeRows (offset + content.length) rest

/-- The rows of a text; the empty text has one. -/
def rowsOf (source : String) : List Row :=
  match splitRows source.toList with
  | [] => [⟨0, []⟩]
  | contents => placeRows 0 contents

/-- The index of the row that an offset falls into. The end of the text belongs to the last row;
beyond it there is none. -/
def rowAt? (rows : List Row) (offset : Nat) : Option Nat :=
  if (rows.getLast?.map Row.stop).any (offset ≤ ·) then
    some ((rows.takeWhile (·.offset ≤ offset)).length - 1)
  else none

end Stencil.Report
