import Stencil.Text.Letters
import Stencil.Json.Value
import Stencil.Json.Shortest

/-!
# The compact text of a JSON value

No blanks are written, and members appear in the order of the table. Strings escape the quote, the
backslash and the control characters below U+0020 and nothing else. Integers are decimal. Doubles
have the fewest digits that read back, positional from `1e-5` up to but not including `1e16`, and
always carry a fraction or an exponent.
-/

namespace Stencil.Json

/-- How doubles are laid out: the least and the first excluded decimal point written positionally,
where the value is `0.d₁d₂… · 10 ^ point`. -/
structure DoubleLayout where
  leastPoint : Int
  pointLimit : Int

/-- Positional from `1e-5` up to, not including, `1e16`. -/
def doubleLayout : DoubleLayout := ⟨-4, 17⟩

/-- The text of a positive decimal. -/
def DoubleLayout.text (layout : DoubleLayout) (d : Decimal) : List Char :=
  let count : Int := d.digits.length
  if layout.leastPoint ≤ d.point && d.point < layout.pointLimit then
    if d.point ≤ 0 then
      ['0', '.'] ++ List.replicate (-d.point).toNat '0' ++ d.digits
    else if count ≤ d.point then
      d.digits ++ List.replicate (d.point - count).toNat '0' ++ ['.', '0']
    else
      d.digits.take d.point.toNat ++ '.' :: d.digits.drop d.point.toNat
  else
    let exponent := d.point - 1
    let sign := if exponent < 0 then '-' else '+'
    let mantissa := match d.digits with
      | [] => []
      | [c] => [c]
      | c :: rest => c :: '.' :: rest
    mantissa ++ 'e' :: sign :: Nat.toDigits 10 exponent.natAbs

/-- The text of a double; an infinity or a NaN, which JSON cannot hold, is `null`. -/
def doubleText (x : Float) : String :=
  let bits := x.toBits
  let sign := if bits.toNat / Nat.pow 2 63 = 1 then ['-'] else []
  let magnitude := bits.toNat % Nat.pow 2 63
  if 0x7FF * Nat.pow 2 52 ≤ magnitude then "null"
  else if magnitude = 0 then String.ofList (sign ++ ['0', '.', '0'])
  else String.ofList (sign ++ doubleLayout.text (shortest (Binary.ofBits bits)))

/-- The text of a number. -/
def Number.text : Number → String
  | .int n => toString n
  | .double x => doubleText x

/-- One character inside a quoted string. -/
def escapeChar (c : Char) : List Char :=
  if c = '"' then ['\\', '"']
  else if c = '\\' then ['\\', '\\']
  else if c = '\x08' then ['\\', 'b']
  else if c = '\x0c' then ['\\', 'f']
  else if c = '\n' then ['\\', 'n']
  else if c = '\r' then ['\\', 'r']
  else if c = '\t' then ['\\', 't']
  else if c.toNat < 32 then
    ['\\', 'u', '0', '0', Text.hexDigit (c.toNat / 16), Text.hexDigit (c.toNat % 16)]
  else [c]

/-- A text as a quoted JSON string. -/
def quoted (s : String) : String :=
  String.ofList ('"' :: s.toList.flatMap escapeChar ++ ['"'])

mutual

/-- The compact text of a value. -/
def Value.text : Value → String
  | .null => "null"
  | .bool b => if b then "true" else "false"
  | .number n => n.text
  | .string s => quoted s
  | .array items => "[" ++ ",".intercalate (itemTexts items) ++ "]"
  | .object members => "\x7b" ++ ",".intercalate (memberTexts members) ++ "\x7d"

/-- The texts of the items of an array. -/
def itemTexts : List Value → List String
  | [] => []
  | v :: vs => v.text :: itemTexts vs

/-- The texts of the members of an object, each a quoted key, a colon and a value. -/
def memberTexts : List (String × Value) → List String
  | [] => []
  | (k, v) :: rest => (quoted k ++ ":" ++ v.text) :: memberTexts rest

end

end Stencil.Json
