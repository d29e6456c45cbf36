import Stencil.Text.Blank
import Stencil.Text.Search
import Stencil.Text.Letters
import Stencil.Json.Value

/-!
# Reading JSON

`Value.read` reads one JSON value with nothing but blanks around it. A text that is no JSON gives
the first fault met when reading from left to right, with the line and the column (in bytes) where
it was noticed: most faults are noticed while looking at a character that is not yet read, and
count it; those met after a character was taken do not.

Arrays and objects may be nested 127 deep. Numbers without fraction and exponent are integers if
they fit in 64 bits. The digits of any other number are gathered in 64 bits as long as they fit,
and a power of ten multiplies or divides that integer in double arithmetic.
-/

namespace Stencil.Json

/-- Why a text is no JSON value. -/
inductive Cause where
  | endInList
  | endInObject
  | endInString
  | endInValue
  | expectedColon
  | expectedListCommaOrEnd
  | expectedObjectCommaOrEnd
  | expectedWord
  | expectedValue
  | invalidEscape
  | invalidNumber
  | numberOutOfRange
  | controlCharacter
  | keyMustBeString
  | loneLeadingSurrogate
  | trailingComma
  | trailingCharacters
  | endOfHexEscape
  | tooDeep
  deriving Repr, DecidableEq

/-- The wording of each cause. -/
def Cause.text : Cause → String
  | .endInList => "EOF while parsing a list"
  | .endInObject => "EOF while parsing an object"
  | .endInString => "EOF while parsing a string"
  | .endInValue => "EOF while parsing a value"
  | .expectedColon => "expected `:`"
  | .expectedListCommaOrEnd => "expected `,` or `]`"
  | .expectedObjectCommaOrEnd => "expected `,` or `\x7d`"
  | .expectedWord => "expected ident"
  | .expectedValue => "expected value"
  | .invalidEscape => "invalid escape"
  | .invalidNumber => "invalid number"
  | .numberOutOfRange => "number out of range"
  | .controlCharacter => "control character (\\u0000-\\u001F) found while parsing a string"
  | .keyMustBeString => "key must be a string"
  | .loneLeadingSurrogate => "lone leading surrogate in hex escape"
  | .trailingComma => "trailing comma"
  | .trailingCharacters => "trailing characters"
  | .endOfHexEscape => "unexpected end of hex escape"
  | .tooDeep => "recursion limit exceeded"

/-- A cause with the line and the column at which it was noticed. -/
structure ReadError where
  cause : Cause
  line : Nat
  column : Nat
  deriving Repr, DecidableEq

/-- The cause and its place in words. -/
def ReadError.message (e : ReadError) : String :=
  s!"{e.cause.text} at line {e.line} column {e.column}"

/-! ## Cursors and faults -/

/-- A place in the text: how many bytes are read, and the characters still to read. -/
structure Cursor where
  offset : Nat
  rest : List Char
  deriving Repr

/-- A cause and the byte offset that it is reported at. -/
structure Fault where
  cause : Cause
  offset : Nat

/-- What a reading step gives: a value and the place after it, or a fault. -/
abbrev Step (α : Type) := Except Fault (α × Cursor)

namespace Cursor

/-- The place after the next `c`, with `rest` behind it. -/
def past (at_ : Cursor) (c : Char) (rest : List Char) : Cursor := ⟨at_.offset + c.utf8Size, rest⟩

/-- The place after the blanks. -/
def skipBlanks (at_ : Cursor) : Cursor :=
  let blanks := at_.rest.takeWhile Text.isXmlBlank
  ⟨at_.offset + blanks.length, at_.rest.dropWhile Text.isXmlBlank⟩

/-- A fault noticed at the characters read so far. -/
def fault {α : Type} (at_ : Cursor) (cause : Cause) : Except Fault α := .error ⟨cause, at_.offset⟩

/-- A fault noticed behind the next byte. -/
def faultBehind {α : Type} (at_ : Cursor) (cause : Cause) : Except Fault α :=
  .error ⟨cause, at_.offset + 1⟩

/-- A fault noticed while looking at the next character, which counts if there is one. -/
def faultAhead {α : Type} (at_ : Cursor) (cause : Cause) : Except Fault α :=
  .error ⟨cause, if at_.rest.isEmpty then at_.offset else at_.offset + 1⟩

end Cursor

/-- Line and column of a byte offset: lines start at one, columns count the bytes since the last
line feed. -/
def lineColumn (text : List Char) (offset : Nat) : Nat × Nat :=
  go text offset 1 0
where
  /-- The place after `left` more bytes, from line `line` and column `column`. -/
  go : List Char → Nat → Nat → Nat → Nat × Nat
    | [], left, line, column => (line, column + left)
    | c :: cs, left, line, column =>
      if left = 0 then (line, column)
      else if c = '\n' then go cs (left - 1) (line + 1) 0
      else if left < c.utf8Size then (line, column + left)
      else go cs (left - c.utf8Size) line (column + c.utf8Size)

/-! ## Words and strings -/

/-- The rest of a word such as `null`, after its first letter. -/
def readWord (value : Value) : List Char → Cursor → Step Value
  | [], at_ => .ok (value, at_)
  | w :: ws, at_ =>
    match at_.rest with
    | [] => at_.fault .endInValue
    | c :: rest =>
      if c = w then readWord value ws (at_.past c rest) else at_.faultBehind .expectedWord

/-- Four hexadecimal digits. Fewer than four bytes before the end are an unfinished string. -/
def readHex4 (at_ : Cursor) : Step Nat :=
  match at_.rest with
  | a :: b :: c :: d :: rest =>
    if [a, b, c, d].all Text.isHexDigit then
      .ok (Text.hexadecimalValue [a, b, c, d], ⟨at_.offset + 4, rest⟩)
    else .error ⟨.invalidEscape, at_.offset + 4⟩
  | short =>
    let left := Text.byteLength short
    if left < 4 then .error ⟨.endInString, at_.offset + left⟩
    else .error ⟨.invalidEscape, at_.offset + 4⟩

/-- The character of a `\u` escape; a leading surrogate takes the escape that follows with it. -/
def readUnicodeEscape (at_ : Cursor) : Step Char :=
  (readHex4 at_).bind fun (n, at1) =>
  if 0xDC00 ≤ n ∧ n ≤ 0xDFFF then at1.fault .loneLeadingSurrogate
  else if n < 0xD800 ∨ 0xDBFF < n then .ok (Char.ofNat n, at1)
  else
    match at1.rest with
    | [] => at1.fault .endInString
    | c :: rest1 =>
      if c ≠ '\\' then at1.faultBehind .endOfHexEscape
      else
        match rest1 with
        | [] => .error ⟨.endInString, at1.offset + 1⟩
        | u :: rest2 =>
          if u ≠ 'u' then .error ⟨.endOfHexEscape, at1.offset + 2⟩
          else
            (readHex4 ⟨at1.offset + 2, rest2⟩).bind fun (m, at2) =>
            if m < 0xDC00 ∨ 0xDFFF < m then at2.fault .loneLeadingSurrogate
            else .ok (Char.ofNat (0x10000 + (n - 0xD800) * 0x400 + (m - 0xDC00)), at2)

/-- The character that a backslash and `c` stand for, where `c` alone decides. -/
def simpleEscape? (c : Char) : Option Char :=
  match c with
  | '"' => some '"'
  | '\\' => some '\\'
  | '/' => some '/'
  | 'b' => some '\x08'
  | 'f' => some '\x0c'
  | 'n' => some '\n'
  | 'r' => some '\r'
  | 't' => some '\t'
  | _ => none

/-- The characters of a string up to its closing quote; `fuel` bounds the number of characters. -/
def readStringBody : (fuel : Nat) → (soFar : List Char) → Cursor → Step String
  | 0, _, at_ => at_.fault .endInString
  | fuel + 1, soFar, at_ =>
    match at_.rest with
    | [] => at_.fault .endInString
    | c :: rest =>
      let next := at_.past c rest
      if c = '"' then .ok (String.ofList soFar.reverse, next)
      else if c = '\\' then
        match rest with
        | [] => next.fault .endInString
        | e :: rest1 =>
          let after := next.past e rest1
          if e = 'u' then
            match readUnicodeEscape after with
            | .ok (ch, at2) => readStringBody fuel (ch :: soFar) at2
            | .error e => .error e
          else
            match simpleEscape? e with
            | some ch => readStringBody fuel (ch :: soFar) after
            | none => next.faultBehind .invalidEscape
      else if c.toNat < 32 then next.fault .controlCharacter
      else readStringBody fuel (c :: soFar) next

/-- A string, after its opening quote. -/
def readString (at_ : Cursor) : Step String :=
  readStringBody (at_.rest.length + 1) [] at_

/-! ## Numbers -/

/-- `10 ^ e` as the nearest double, for `e` up to 308. -/
def powerOfTen (e : Nat) : Float := Float.ofScientific 1 false e

/-- Scale by a power of ten in double arithmetic, 308 places at a time. Nothing is given when the
result is infinite. -/
def scaleDouble : (fuel : Nat) → Float → Int → Option Float
  | 0, x, _ => some x
  | fuel + 1, x, e =>
    if e.natAbs ≤ 308 then
      if 0 ≤ e then
        let y := x * powerOfTen e.natAbs
        if y.isInf then none else some y
      else some (x / powerOfTen e.natAbs)
    else if x == 0.0 then some x
    else if 0 ≤ e then none
    else scaleDouble fuel (x / powerOfTen 308) (e + 308)

/-- The double `± significand · 10 ^ e`. -/
def composeDouble (negative : Bool) (significand : Nat) (e : Int) (at_ : Cursor) : Step Number :=
  match scaleDouble (e.natAbs / 308 + 2) (UInt64.ofNat significand).toFloat e with
  | none => at_.fault .numberOutOfRange
  | some x => .ok (.double (if negative then -x else x), at_)

/-- Decimal digits appended to `significand` while the result fits in 64 bits: the number, how many
digits were taken, and the digits that were left. -/
def takeDigits : (significand count : Nat) → List Char → Nat × Nat × List Char
  | significand, count, [] => (significand, count, [])
  | significand, count, c :: cs =>
    let next := 10 * significand + (c.toNat - 48)
    if Text.isDigit c && next < Nat.pow 2 64 then takeDigits next (count + 1) cs
    else (significand, count, c :: cs)

/-- The place after `n` one-byte characters. -/
def Cursor.advance (at_ : Cursor) (n : Nat) : Cursor := ⟨at_.offset + n, at_.rest.drop n⟩

/-- The place after the digits. -/
def Cursor.skipDigits (at_ : Cursor) : Cursor :=
  at_.advance (at_.rest.takeWhile Text.isDigit).length

/-- The exponent of a number, from its `e` on. -/
def readExponent (negative : Bool) (significand : Nat) (start : Int) (at_ : Cursor) :
    Step Number :=
  let at1 := at_.advance 1
  let (down, at2) := match at1.rest with
    | '+' :: _ => (false, at1.advance 1)
    | '-' :: _ => (true, at1.advance 1)
    | _ => (false, at1)
  match at2.rest with
  | [] => at2.fault .endInValue
  | c :: _ =>
    if !Text.isDigit c then at2.faultBehind .invalidNumber
    else
      let digits := at2.rest.takeWhile Text.isDigit
      let limit := Nat.pow 2 31
      let fits := (List.range digits.length).find? fun k =>
        limit ≤ Text.decimalValue (digits.take (k + 1))
      match fits with
      | none =>
        let e : Int := Text.decimalValue digits
        let total := if down then start - e else start + e
        composeDouble negative significand total (at2.advance digits.length)
      | some k =>
        if significand ≠ 0 ∧ !down then (at2.advance (k + 1)).fault .numberOutOfRange
        else .ok (.double (if negative then -0.0 else 0.0), at2.skipDigits)

/-- What follows the digits of a number that is no integer. -/
def readDoubleEnd (negative : Bool) (significand : Nat) (e : Int) (at_ : Cursor) : Step Number :=
  match at_.rest with
  | 'e' :: _ => readExponent negative significand e at_
  | 'E' :: _ => readExponent negative significand e at_
  | _ => composeDouble negative significand e at_

/-- The fraction of a number, from its point on; `start` digits were dropped before the point. -/
def readFraction (negative : Bool) (significand : Nat) (start : Nat) (at_ : Cursor) :
    Step Number :=
  let at1 := at_.advance 1
  let (total, count, left) := takeDigits significand 0 at1.rest
  let at2 := at1.advance count
  match left with
  | c :: _ =>
    if Text.isDigit c then
      readDoubleEnd negative total ((start : Int) - count) at2.skipDigits
    else if count = 0 then at2.faultAhead .invalidNumber
    else readDoubleEnd negative total ((start : Int) - count) at2
  | [] =>
    if count = 0 then at2.faultAhead .endInValue
    else readDoubleEnd negative total ((start : Int) - count) at2

/-- What follows the integer part of a number. -/
def readNumberEnd (negative : Bool) (significand : Nat) (at_ : Cursor) : Step Number :=
  match at_.rest with
  | '.' :: _ => readFraction negative significand 0 at_
  | 'e' :: _ => readExponent negative significand 0 at_
  | 'E' :: _ => readExponent negative significand 0 at_
  | _ =>
    if !negative then .ok (.int significand, at_)
    else if significand = 0 ∨ Nat.pow 2 63 < significand then
      .ok (.double (-(UInt64.ofNat significand).toFloat), at_)
    else .ok (.int (-(significand : Int)), at_)

/-- A number, after its sign. -/
def readNumber (negative : Bool) (at_ : Cursor) : Step Number :=
  match at_.rest with
  | [] => at_.fault .endInValue
  | c :: rest =>
    if c = '0' then
      let next := at_.past c rest
      match rest with
      | d :: _ => if Text.isDigit d then next.faultAhead .invalidNumber
                  else readNumberEnd negative 0 next
      | [] => readNumberEnd negative 0 next
    else if !Text.isDigit c then at_.faultBehind .invalidNumber
    else
      let (significand, count, left) := takeDigits 0 0 at_.rest
      let at1 := at_.advance count
      match left with
      | d :: _ =>
        if Text.isDigit d then
          let extra := (left.takeWhile Text.isDigit).length
          let at2 := at1.advance extra
          match at2.rest with
          | '.' :: _ => readFraction negative significand extra at2
          | _ => readDoubleEnd negative significand extra at2
        else readNumberEnd negative significand at1
      | [] => readNumberEnd negative significand at1

/-! ## Values -/

/-- The items of an array up to and including its bracket. -/
def readItems (item : Cursor → Step Value) :
    (fuel : Nat) → (first : Bool) → List Value → Cursor → Step Value
  | 0, _, _, at_ => at_.fault .endInList
  | fuel + 1, first, soFar, at0 =>
    let at_ := at0.skipBlanks
    match at_.rest with
    | [] => at_.faultAhead .endInList
    | c :: rest =>
      if c = ']' then .ok (.array soFar.reverse, at_.past c rest)
      else if first then
        match item at_ with
        | .ok (v, next) => readItems item fuel false (v :: soFar) next
        | .error e => .error e
      else if c = ',' then
        let at1 := (at_.past c rest).skipBlanks
        match at1.rest with
        | [] => at1.faultAhead .endInValue
        | d :: _ =>
          if d = ']' then at1.faultAhead .trailingComma
          else
            match item at1 with
            | .ok (v, next) => readItems item fuel false (v :: soFar) next
            | .error e => .error e
      else at_.faultAhead .expectedListCommaOrEnd

/-- A member from its opening quote on: a key, a colon and a value. -/
def readMember (item : Cursor → Step Value) (at_ : Cursor) : Step (String × Value) :=
  (readString (at_.advance 1)).bind fun (key, at0) =>
  let at1 := at0.skipBlanks
  match at1.rest with
  | [] => at1.faultAhead .endInObject
  | c :: rest =>
    if c = ':' then (item (at1.past c rest)).map fun (v, next) => ((key, v), next)
    else at1.faultAhead .expectedColon

/-- The members of an object up to and including its brace. -/
def readMembers (item : Cursor → Step Value) :
    (fuel : Nat) → (first : Bool) → Keyed Value → Cursor → Step Value
  | 0, _, _, at_ => at_.fault .endInObject
  | fuel + 1, first, soFar, at0 =>
    let at_ := at0.skipBlanks
    match at_.rest with
    | [] => at_.faultAhead .endInObject
    | c :: rest =>
      if c = '}' then .ok (.object soFar, at_.past c rest)
      else if first then
        if c = '"' then
          match readMember item at_ with
          | .ok ((k, v), next) => readMembers item fuel false (soFar.insert k v) next
          | .error e => .error e
        else at_.faultAhead .keyMustBeString
      else if c = ',' then
        let at1 := (at_.past c rest).skipBlanks
        match at1.rest with
        | [] => at1.faultAhead .endInValue
        | d :: _ =>
          if d = '"' then
            match readMember item at1 with
            | .ok ((k, v), next) => readMembers item fuel false (soFar.insert k v) next
            | .error e => .error e
          else if d = '}' then at1.faultAhead .trailingComma
          else at1.faultAhead .keyMustBeString
      else at_.faultAhead .expectedObjectCommaOrEnd

/-- A value, with at most `depth - 1` arrays and objects inside each other. -/
def readValue : (depth : Nat) → Cursor → Step Value
  | 0, at0 => at0.skipBlanks.faultAhead .tooDeep
  | depth + 1, at0 =>
    let at_ := at0.skipBlanks
    match at_.rest with
    | [] => at_.faultAhead .endInValue
    | c :: rest =>
      let next := at_.past c rest
      if c = 'n' then readWord .null "ull".toList next
      else if c = 't' then readWord (.bool true) "rue".toList next
      else if c = 'f' then readWord (.bool false) "alse".toList next
      else if c = '-' then (readNumber true next).map fun (n, p) => (.number n, p)
      else if Text.isDigit c then (readNumber false at_).map fun (n, p) => (.number n, p)
      else if c = '"' then (readString next).map fun (s, p) => (.string s, p)
      else if c = '[' then
        if depth = 0 then at_.faultAhead .tooDeep
        else readItems (readValue depth) (rest.length + 1) true [] next
      else if c = '{' then
        if depth = 0 then at_.faultAhead .tooDeep
        else readMembers (readValue depth) (rest.length + 1) true [] next
      else at_.faultAhead .expectedValue

/-- How deep arrays and objects may be nested, plus one. -/
def depthLimit : Nat := 128

/-- Read a text that holds one value and blanks. -/
def Value.read (text : String) : Except ReadError Value :=
  let cs := text.toList
  let result := (readValue depthLimit ⟨0, cs⟩).bind fun (v, at0) =>
    let at_ := at0.skipBlanks
    if at_.rest.isEmpty then .ok v else at_.faultAhead .trailingCharacters
  match result with
  | .ok v => .ok v
  | .error f =>
    let (line, column) := lineColumn cs f.offset
    .error ⟨f.cause, line, column⟩

end Stencil.Json
