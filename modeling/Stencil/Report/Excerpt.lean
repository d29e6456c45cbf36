import Stencil.Report.Rows
import Stencil.Text.Columns

/-!
# Excerpts with one label

An excerpt shows the rows that a label covers, with the label's message below. A label within one
row is underlined and its message hangs from the middle; a label over several rows is drawn as a
bracket in the margin, and of the rows between its ends only a gap is shown. Everything is painted
with terminal colours.
-/

namespace Stencil.Report

/-! ## Colours -/

/-- What the colours mean. -/
inductive Ink where
  | frame
  | skipped
  | plain
  | marked
  deriving Repr, DecidableEq

/-- The code of a colour. -/
def Ink.code : Ink → String
  | .frame => "38;5;246"
  | .skipped => "38;5;240"
  | .plain => "38;5;249"
  | .marked => "33"

/-- A text in a colour. -/
def Ink.paint (ink : Ink) (text : String) : String :=
  "\x1b[" ++ ink.code ++ "m" ++ text ++ "\x1b[0m"

/-- The same character over and over, each in the colour by itself. -/
def Ink.paintChars (ink : Ink) (count : Nat) (c : Char) : String :=
  String.join (List.replicate count (ink.paint c.toString))

/-- A number of blanks. -/
def blanks (count : Nat) : String := String.ofList (List.replicate count ' ')

/-- Drop the digits and semicolons of a colour sequence up to its end, if it has one. -/
def afterSequence? : List Char → Option (List Char)
  | 'm' :: cs => some cs
  | c :: cs => if c = ';' ∨ ('0' ≤ c ∧ c ≤ '9') then afterSequence? cs else none
  | [] => none

/-- The text without its colour sequences. -/
def dropColours : (fuel : Nat) → List Char → List Char
  | 0, cs => cs
  | _ + 1, [] => []
  | fuel + 1, c :: cs =>
    match c, cs with
    | '\x1b', '[' :: rest =>
      match afterSequence? rest with
      | some rest => dropColours fuel rest
      | none => c :: dropColours fuel cs
    | c, cs => c :: dropColours fuel cs

/-- The text without its colour sequences. -/
def withoutColours (text : String) : String :=
  String.ofList (dropColours (text.length + 1) text.toList)

/-! ## Cells -/

/-- How a character at a place in its row is drawn: as which character and over how many columns.
Tabs reach to the next multiple of four, other blanks are single. -/
def cell (place : Nat) (c : Char) : Char × Nat :=
  if c = '\t' then (' ', 4 - place % 4)
  else if Text.isBlank c then (' ', 1)
  else (c, Text.columns c)

/-- The characters of a row that are drawn. -/
def Row.drawn (r : Row) : List Char := Text.trimEnd r.content

/-- The columns that the character at a place takes; behind the row it is one. -/
def Row.columnsAt (r : Row) (place : Nat) : Nat :=
  match r.drawn[place]? with
  | some c => (cell place c).2
  | none => 1

/-! ## Labels -/

/-- A range of characters with a message. -/
structure Label where
  start : Nat
  stop : Nat
  message : String
  deriving Repr, DecidableEq

namespace Label

/-- The last character of the label, or its place if it is empty. -/
def last (l : Label) : Nat := max (l.stop - 1) l.start

/-- Whether a character is in the label. -/
def covers (l : Label) (offset : Nat) : Bool := l.start ≤ offset && offset < l.stop

/-- The first and last row of the label, if both are in the text. -/
def rows? (l : Label) (rows : List Row) : Option (Nat × Nat) := do
  let first ← rowAt? rows l.start
  if l.stop ≤ l.start then some (first, first)
  else some (first, ← rowAt? rows (l.stop - 1))

/-- The text of a row, its characters painted one by one. -/
def paintRow (l : Label) (r : Row) : String :=
  String.join (r.drawn.zipIdx.map fun (c, place) =>
    let ink : Ink := if l.covers (r.offset + place) then .marked else .plain
    let (c, columns) := cell place c
    if c = ' ' then ink.paintChars columns c else ink.paintChars 1 c)

/-- Something for each of the first places of a row. -/
def alongRow (count : Nat) (draw : Nat → String) : String :=
  String.join ((List.range count).map draw)

/-- The line that underlines a label in its row. -/
def underline (l : Label) (r : Row) : String :=
  let middle := max ((l.start + l.stop) / 2) l.start - r.offset
  alongRow (l.stop - r.offset + 2) fun place =>
    let columns := r.columnsAt place
    let covered := l.covers (r.offset + place)
    if columns = 0 then ""
    else if place = middle then
      if covered then Ink.paint .marked "┬" ++ Ink.paintChars .marked (columns - 1) '─'
      else Ink.paint .marked "│" ++ Ink.paintChars .marked (columns - 1) ' '
    else if covered then Ink.paintChars .marked columns '─'
    else blanks columns

/-- The line that leads from the middle of a label to its message. -/
def pointer (l : Label) (r : Row) : String :=
  let middle := max ((l.start + l.stop) / 2) l.start - r.offset
  (alongRow (l.stop - r.offset + 2) fun place =>
    let columns := r.columnsAt place
    if columns = 0 then ""
    else if place = middle then
      Ink.paint .marked "╰" ++ Ink.paintChars .marked (columns - 1) '─'
    else if middle < place then Ink.paintChars .marked columns '─'
    else blanks columns) ++ " " ++ l.message

end Label

/-! ## Margins -/

/-- The margin of a row that is shown: its number. -/
def numberMargin (width index : Nat) : String :=
  let number := toString (index + 1)
  " " ++ Ink.paint .frame (blanks (width - number.length) ++ number ++ " │") ++ " "

/-- The margin of a line between rows. -/
def plainMargin (width : Nat) : String :=
  " " ++ Ink.paint .skipped (blanks (width + 1) ++ "│") ++ " "

/-- The margin of a gap. -/
def gapMargin (width : Nat) : String :=
  " " ++ Ink.paint .skipped (blanks (width + 1) ++ "┆") ++ " "

/-- The bracket beside the first or last row of a label. -/
def bracket (corner : String) : String :=
  Ink.paint .marked corner ++ Ink.paint .marked "─" ++ Ink.paint .marked "▶" ++
    Ink.paint .marked " "

/-- The lines below the last row of a label over several rows. -/
def closing (width : Nat) (l : Label) (r : Row) : List String :=
  let total := ((List.range (r.length + 2)).map r.columnsAt).foldl (· + ·) 0
  [plainMargin width ++ Ink.paint .marked "│" ++ "   " ++ blanks total,
    plainMargin width ++ Ink.paint .marked "╰" ++ Ink.paintChars .marked (3 + total) '─' ++ " " ++
      l.message]

/-! ## Excerpts -/

/-- The lines for the rows of a label over several rows, the first of which has the given index.
`gap` says whether the row before was left out. -/
def bracketLines (width : Nat) (l : Label) (gap : Bool) (index : Nat) : List Row → List String
  | [] => []
  | r :: rest =>
    if r.holds l.start then
      (numberMargin width index ++ bracket "╭" ++ l.paintRow r) ::
        bracketLines width l false (index + 1) rest
    else if r.holds l.last then
      (numberMargin width index ++ bracket "├" ++ l.paintRow r) :: closing width l r ++
        bracketLines width l false (index + 1) rest
    else if gap then bracketLines width l true (index + 1) rest
    else
      (gapMargin width ++ Ink.paint .marked "┆" ++ "   ") ::
        bracketLines width l true (index + 1) rest

/-- The lines for a label within one row. A label that reaches behind the row is not drawn. -/
def underlineLines (width : Nat) (l : Label) (index : Nat) (r : Row) : List String :=
  if l.stop ≤ r.stop then
    [numberMargin width index ++ l.paintRow r, plainMargin width ++ l.underline r,
      plainMargin width ++ l.pointer r]
  else [plainMargin width]

/-- The lines of an excerpt between its frame lines. -/
def excerptLines (width : Nat) (l : Label) (rows : List Row) (first last : Nat) : List String :=
  let shown := (rows.drop first).take (last + 1 - first)
  if first = last then shown.flatMap (underlineLines width l first)
  else bracketLines width l false first shown

/-- The excerpt of a file that a label is about, with its frame. Nothing is shown of a label that
is not in the text. -/
def excerpt (source filename : String) (l : Label) : List String :=
  let rows := rowsOf source
  match l.rows? rows with
  | none => []
  | some (first, last) =>
    let width := (toString (last + 1)).length
    let column := l.start - ((rows[first]?.map Row.offset).getD 0)
    let place := s!"{filename}:{first + 1}:{column + 1}"
    let top := blanks (width + 2) ++ Ink.paint .frame "╭" ++ Ink.paint .frame "─" ++
      Ink.paint .frame "[" ++ place ++ Ink.paint .frame "]"
    let bottom := Ink.paint .frame (String.ofList (List.replicate (width + 2) '─') ++ "╯")
    top :: (blanks (width + 2) ++ Ink.paint .frame "│") :: excerptLines width l rows first last ++
      [bottom]

/-- A warning about a place in a file. -/
def warning (source filename title : String) (l : Label) : String :=
  String.join ((Ink.paint .marked "Warning:" ++ " " ++ title) :: excerpt source filename l
    |>.map (· ++ "\n"))

end Stencil.Report
