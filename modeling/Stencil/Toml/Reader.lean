import Stencil.Toml.Literal
import Stencil.Toml.Value

/-!
# Reading TOML

A document is a sequence of lines: table headers, values under dotted keys, comments and blanks.
Any fault makes the whole document unreadable; no reason is given.
-/

namespace Stencil.Toml
open Text

/-! ## Blanks and line ends -/

/-- Blanks inside a line. -/
def isSpace (c : Char) : Bool := c == ' ' || c == '\t'

/-- Drop the blanks at the start of a text. -/
def skipSpaces (cs : List Char) : List Char := cs.dropWhile isSpace

/-- The rest after a line end. -/
def afterNewline? : List Char → Option (List Char)
  | '\n' :: cs => some cs
  | '\r' :: '\n' :: cs => some cs
  | _ => none

/-- Characters that comments and strings can hold as they are. -/
def isPlain (c : Char) : Bool := c == '\t' || (0x20 ≤ c.toNat && c.toNat != 0x7F)

/-- Drop a comment at the start of a text. -/
def skipComment : List Char → List Char
  | '#' :: cs => cs.dropWhile isPlain
  | cs => cs

/-- The rest after the end of a line, which blanks and a comment may come before. -/
def afterLine? (cs : List Char) : Option (List Char) :=
  match skipComment (skipSpaces cs) with
  | [] => some []
  | cs => afterNewline? cs

/-- Drop blanks, line ends and comments. -/
def skipLines : (fuel : Nat) → List Char → List Char
  | 0, cs => cs
  | fuel + 1, cs =>
    let cs := skipSpaces cs
    match afterNewline? (skipComment cs) with
    | some rest => skipLines fuel rest
    | none => cs

/-! ## Strings -/

/-- The character of an escape, given what follows the backslash, with the rest. -/
def escape? : List Char → Option (Char × List Char)
  | 'b' :: cs => some ('\x08', cs)
  | 't' :: cs => some ('\t', cs)
  | 'n' :: cs => some ('\n', cs)
  | 'f' :: cs => some ('\x0c', cs)
  | 'r' :: cs => some ('\r', cs)
  | '"' :: cs => some ('"', cs)
  | '\\' :: cs => some ('\\', cs)
  | 'u' :: cs => code? 4 cs
  | 'U' :: cs => code? 8 cs
  | _ => none
where
  /-- A character given by a number of hexadecimal digits. -/
  code? (count : Nat) (cs : List Char) : Option (Char × List Char) :=
    let digits := cs.take count
    let code := hexadecimalValue digits
    if digits.length = count ∧ digits.all isHexDigit ∧ code.isValidChar then
      some (Char.ofNat code, cs.drop count)
    else none

/-- The text up to the quote that closes a one-line string, with the rest. -/
def lineString? (escapes : Bool) (quote : Char) : (fuel : Nat) → List Char →
    Option (List Char × List Char)
  | 0, _ => none
  | _ + 1, [] => none
  | fuel + 1, c :: cs =>
    if c = quote then some ([], cs)
    else if escapes ∧ c = '\\' then do
      let (d, rest) ← escape? cs
      let (text, rest) ← lineString? escapes quote fuel rest
      return (d :: text, rest)
    else if isPlain c then do
      let (text, rest) ← lineString? escapes quote fuel cs
      return (c :: text, rest)
    else none

/-- Drop blanks and line ends. -/
def skipBlankLines : List Char → List Char
  | '\r' :: '\n' :: cs => skipBlankLines cs
  | c :: cs => if isSpace c || c == '\n' then skipBlankLines cs else c :: cs
  | [] => []

/-- The rest after a backslash at the end of a line: all blanks and line ends are skipped. -/
def afterContinuation? (cs : List Char) : Option (List Char) :=
  (afterNewline? (skipSpaces cs)).map skipBlankLines

/-- The text up to the three quotes that close a string over lines, with the rest. Up to two more
quotes before them belong to the text. -/
def linesString? (escapes : Bool) (quote : Char) : (fuel : Nat) → List Char →
    Option (List Char × List Char)
  | 0, _ => none
  | _ + 1, [] => none
  | fuel + 1, c :: cs =>
    if c = quote then
      let count := 1 + (cs.takeWhile (· == quote)).length
      if 3 ≤ count then
        let used := min count 5
        some (List.replicate (used - 3) quote, (c :: cs).drop used)
      else do
        let (text, rest) ← linesString? escapes quote fuel cs
        return (c :: text, rest)
    else if escapes ∧ c = '\\' then
      match afterContinuation? cs with
      | some rest => linesString? escapes quote fuel rest
      | none => do
        let (d, rest) ← escape? cs
        let (text, rest) ← linesString? escapes quote fuel rest
        return (d :: text, rest)
    else
      match afterNewline? (c :: cs) with
      | some rest => do
        let (text, rest) ← linesString? escapes quote fuel rest
        return ('\n' :: text, rest)
      | none =>
        if isPlain c then do
          let (text, rest) ← linesString? escapes quote fuel cs
          return (c :: text, rest)
        else none

/-- The string that starts with a quote, given what follows the quote, with the rest. -/
def string? (quote : Char) (cs : List Char) : Option (String × List Char) :=
  let escapes := quote == '"'
  let found? := match cs with
    | c :: d :: inner =>
      if c = quote ∧ d = quote then
        linesString? escapes quote (cs.length + 1) ((afterNewline? inner).getD inner)
      else lineString? escapes quote (cs.length + 1) cs
    | _ => lineString? escapes quote (cs.length + 1) cs
  found?.map fun (text, rest) => (String.ofList text, rest)

/-! ## Keys -/

/-- Characters of keys without quotes. -/
def isKeyChar (c : Char) : Bool := isLetter c || isDigit c || c == '_' || c == '-'

/-- One part of a key, with the rest. -/
def keyPart? (cs : List Char) : Option (String × List Char) :=
  match cs with
  | [] => none
  | c :: inner =>
    if c = '"' ∨ c = '\'' then
      (lineString? (c == '"') c (cs.length + 1) inner).map fun (text, rest) =>
        (String.ofList text, rest)
    else
      let word := cs.takeWhile isKeyChar
      if word.isEmpty then none else some (String.ofList word, cs.dropWhile isKeyChar)

/-- How many levels of tables and arrays may stand within each other. -/
def maxNesting : Nat := 79

/-- The parts of a dotted key as a path and a last part, with the rest. Blanks may surround the
dots. -/
def keyParts? : (fuel : Nat) → List Char → Option ((List String × String) × List Char)
  | 0, _ => none
  | fuel + 1, cs => do
    let (part, rest) ← keyPart? (skipSpaces cs)
    match skipSpaces rest with
    | '.' :: more =>
      let ((path, last), rest) ← keyParts? fuel more
      return ((part :: path, last), rest)
    | rest => return (([], part), rest)

/-- A dotted key that has no more parts than there may be levels, with the rest. -/
def key? (cs : List Char) : Option ((List String × String) × List Char) :=
  (keyParts? (cs.length + 1) cs).filter fun ((path, _), _) => path.length < maxNesting

/-! ## Values -/

mutual

/-- A value, with the rest; `room` more levels may stand in it. -/
def value? : (fuel : Nat) → (room : Nat) → List Char → Option (Value × List Char)
  | 0, _, _ => none
  | fuel + 1, room, cs =>
    match cs with
    | '"' :: rest => (string? '"' rest).map fun (text, rest) => (.text text, rest)
    | '\'' :: rest => (string? '\'' rest).map fun (text, rest) => (.text text, rest)
    | '[' :: rest =>
      if room = 0 then none
      else (items? fuel (room - 1) rest).map fun (items, rest) => (.array items, rest)
    | '\x7b' :: rest =>
      if room = 0 then none
      else
        match skipSpaces rest with
        | '\x7d' :: rest => some (.table .inline [], rest)
        | rest =>
          (pairs? fuel (room - 1) [] rest).map fun (entries, rest) =>
            (.table .inline entries, rest)
    | cs => (literal? cs).map fun (word, rest) => (.literal (String.ofList word), rest)

/-- The items of an array up to its closing bracket, with the rest. -/
def items? : (fuel : Nat) → (room : Nat) → List Char → Option (List Value × List Char)
  | 0, _, _ => none
  | fuel + 1, room, cs =>
    match skipLines (cs.length + 1) cs with
    | ']' :: rest => some ([], rest)
    | cs => do
      let (item, rest) ← value? fuel room cs
      match skipLines (rest.length + 1) rest with
      | ',' :: rest =>
        let (items, rest) ← items? fuel room rest
        return (item :: items, rest)
      | ']' :: rest => return ([item], rest)
      | _ => none

/-- The entries of an inline table up to its closing brace, with the rest; there is at least
one. -/
def pairs? : (fuel : Nat) → (room : Nat) → Entries → List Char →
    Option (Entries × List Char)
  | 0, _, _, _ => none
  | fuel + 1, room, entries, cs => do
    let ((path, last), rest) ← key? cs
    let '=' :: rest := rest | none
    let (value, rest) ← value? fuel room (skipSpaces rest)
    let entries ← addValue path last value .header entries
    match skipSpaces rest with
    | ',' :: rest => pairs? fuel room entries rest
    | '\x7d' :: rest => return (entries, rest)
    | _ => none

end

/-! ## Documents -/

/-- The tables read so far, and the path of the table that values are added to. -/
structure Progress where
  entries : Entries
  path : List String

/-- Read a header behind its opening bracket. -/
def header? (p : Progress) (cs : List Char) : Option (Progress × List Char) := do
  match cs with
  | '[' :: cs =>
    let ((path, last), rest) ← key? cs
    let ']' :: ']' :: rest := rest | none
    let entries ← openTables path last .header p.entries
    return (⟨entries, path ++ [last]⟩, rest)
  | cs =>
    let ((path, last), rest) ← key? cs
    let ']' :: rest := rest | none
    let entries ← openTable path last .header p.entries
    return (⟨entries, path ++ [last]⟩, rest)

/-- Read a key and its value. -/
def assignment? (p : Progress) (cs : List Char) : Option (Progress × List Char) := do
  let ((path, last), rest) ← key? cs
  let '=' :: rest := rest | none
  let (value, rest) ← value? (rest.length + 1) maxNesting (skipSpaces rest)
  let entries ← follow false (addValue path last value) p.path .header p.entries
  return ({ p with entries }, rest)

/-- Read lines up to the end. -/
def lines? : (fuel : Nat) → Progress → List Char → Option Entries
  | 0, _, _ => none
  | fuel + 1, p, cs =>
    match skipSpaces cs with
    | [] => some p.entries
    | '[' :: rest => do
      let (p, rest) ← header? p rest
      lines? fuel p (← afterLine? rest)
    | c :: rest =>
      if c = '#' ∨ c = '\n' ∨ c = '\r' then do
        lines? fuel p (← afterLine? (c :: rest))
      else do
        let (p, rest) ← assignment? p (c :: rest)
        lines? fuel p (← afterLine? rest)

/-- The entries of a document. A byte order mark at its start is skipped. -/
def read? (text : String) : Option Entries :=
  let cs := match text.toList with
    | '\uFEFF' :: cs => cs
    | cs => cs
  lines? (cs.length + 1) ⟨[], []⟩ cs

end Stencil.Toml
