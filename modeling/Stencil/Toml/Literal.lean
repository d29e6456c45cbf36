import Stencil.Text.Letters

/-!
# Booleans, numbers and dates

The written forms of the values that are neither strings nor containers. They are only told from
malformed ones; nothing is computed with them.
-/

namespace Stencil.Toml
open Text

/-- The rest after a run of digits, in which single underscores may stand between two digits. -/
def afterDigits? (isDigit : Char → Bool) : List Char → Option (List Char)
  | [] => none
  | c :: cs =>
    if !isDigit c then none
    else
      match cs with
      | [] => some []
      | '_' :: rest => afterDigits? isDigit rest
      | d :: rest => if isDigit d then afterDigits? isDigit (d :: rest) else some (d :: rest)

/-- The text without a leading sign. -/
def dropSign : List Char → List Char
  | '+' :: cs => cs
  | '-' :: cs => cs
  | cs => cs

/-- The rest after the whole part of a decimal number, which has no superfluous zero in front. -/
def afterWhole? (cs : List Char) : Option (List Char) :=
  match dropSign cs with
  | '0' :: rest => if rest.head?.any fun c => isDigit c || c == '_' then none else some rest
  | rest => afterDigits? isDigit rest

/-- Whether a text is an exponent or nothing. -/
def isExponent : List Char → Bool
  | [] => true
  | c :: cs => (c == 'e' || c == 'E') && afterDigits? isDigit (dropSign cs) == some []

/-- Whether a text is a decimal number with a fraction or an exponent. -/
def isFraction (cs : List Char) : Bool :=
  match afterWhole? cs with
  | some ('.' :: rest) => (afterDigits? isDigit rest).any isExponent
  | some (c :: rest) => isExponent (c :: rest)
  | _ => false

/-- Whether digits in some base, underscores aside, stay below a bound. -/
def isBounded (base bound : Nat) (digits : List Char) : Bool :=
  (digits.filter (· != '_')).foldl (fun n c => base * n + hexValue c) 0 < bound

/-- Whether a text is an integer of the signed 64-bit range. -/
def isInteger (cs : List Char) : Bool :=
  match cs with
  | '0' :: 'x' :: rest =>
    afterDigits? isHexDigit rest == some [] && isBounded 16 (Nat.pow 2 63) rest
  | '0' :: 'o' :: rest =>
    afterDigits? (fun c => '0' ≤ c && c ≤ '7') rest == some [] && isBounded 8 (Nat.pow 2 63) rest
  | '0' :: 'b' :: rest =>
    afterDigits? (fun c => c == '0' || c == '1') rest == some [] && isBounded 2 (Nat.pow 2 63) rest
  | cs =>
    let bound := if cs.head? = some '-' then Nat.pow 2 63 + 1 else Nat.pow 2 63
    afterWhole? cs == some [] && isBounded 10 bound (dropSign cs)

/-- The value of exactly `count` leading digits, with the rest. -/
def fixedDigits? (count : Nat) (cs : List Char) : Option (Nat × List Char) :=
  let digits := cs.take count
  if digits.length = count ∧ digits.all isDigit then some (decimalValue digits, cs.drop count)
  else none

/-- The number of days of a month. -/
def daysIn (year month : Nat) : Nat :=
  if month = 2 then
    if year % 4 = 0 ∧ (year % 100 ≠ 0 ∨ year % 400 = 0) then 29 else 28
  else if month = 4 ∨ month = 6 ∨ month = 9 ∨ month = 11 then 30
  else 31

/-- The rest after a date. -/
def afterDate? (cs : List Char) : Option (List Char) := do
  let (year, cs) ← fixedDigits? 4 cs
  let '-' :: cs := cs | none
  let (month, cs) ← fixedDigits? 2 cs
  let '-' :: cs := cs | none
  let (day, cs) ← fixedDigits? 2 cs
  if 1 ≤ month ∧ month ≤ 12 ∧ 1 ≤ day ∧ day ≤ daysIn year month then some cs else none

/-- The rest after hours and minutes. -/
def afterMinutes? (cs : List Char) : Option (List Char) := do
  let (hour, cs) ← fixedDigits? 2 cs
  let ':' :: cs := cs | none
  let (minute, cs) ← fixedDigits? 2 cs
  if hour ≤ 23 ∧ minute ≤ 59 then some cs else none

/-- The rest after a time of day. -/
def afterTime? (cs : List Char) : Option (List Char) := do
  let cs ← afterMinutes? cs
  let ':' :: cs := cs | none
  let (second, cs) ← fixedDigits? 2 cs
  if second > 60 then none
  else
    match cs with
    | '.' :: rest =>
      let digits := rest.takeWhile isDigit
      if digits.isEmpty then none else some (rest.dropWhile isDigit)
    | cs => some cs

/-- Whether a text is the offset of a time from universal time, or nothing. -/
def isOffset : List Char → Bool
  | [] => true
  | ['Z'] => true
  | ['z'] => true
  | '+' :: cs => afterMinutes? cs == some []
  | '-' :: cs => afterMinutes? cs == some []
  | _ => false

/-- Whether a text is a date, a time or both. -/
def isDate (cs : List Char) : Bool :=
  afterTime? cs == some [] ||
    match afterDate? cs with
    | some [] => true
    | some (c :: rest) =>
      (c == 'T' || c == 't' || c == ' ') && (afterTime? rest).any isOffset
    | none => false

/-- Whether a text is a boolean, a number, a date or a time. -/
def isLiteral (cs : List Char) : Bool :=
  let word := String.ofList cs
  let unsigned := String.ofList (dropSign cs)
  word == "true" || word == "false" || unsigned == "inf" || unsigned == "nan" ||
    isInteger cs || isFraction cs || isDate cs

/-- Characters of literals. -/
def isLiteralChar (c : Char) : Bool :=
  isLetter c || isDigit c || c == '+' || c == '-' || c == '_' || c == '.' || c == ':'

/-- The literal at the start of a text, with the rest. A date and a time may have a blank between
them. -/
def literal? (cs : List Char) : Option (List Char × List Char) :=
  let word := cs.takeWhile isLiteralChar
  let rest := cs.dropWhile isLiteralChar
  let (word, rest) := match rest with
    | ' ' :: more =>
      if afterDate? word == some [] && more.head?.any isDigit then
        (word ++ ' ' :: more.takeWhile isLiteralChar, more.dropWhile isLiteralChar)
      else (word, rest)
    | _ => (word, rest)
  if isLiteral word then some (word, rest) else none

end Stencil.Toml
