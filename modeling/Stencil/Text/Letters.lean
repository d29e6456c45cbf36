/-!
# ASCII letters and names

Case folding that touches the letters `A` to `Z` alone, and the character classes of names.
-/

namespace Stencil.Text

/-- `a` to `z`. -/
def isLowerLetter (c : Char) : Bool := 'a' ≤ c && c ≤ 'z'

/-- `A` to `Z`. -/
def isUpperLetter (c : Char) : Bool := 'A' ≤ c && c ≤ 'Z'

/-- An ASCII letter. -/
def isLetter (c : Char) : Bool := isLowerLetter c || isUpperLetter c

/-- `0` to `9`. -/
def isDigit (c : Char) : Bool := '0' ≤ c && c ≤ '9'

/-- `0` to `9`, `a` to `f` or `A` to `F`. -/
def isHexDigit (c : Char) : Bool :=
  isDigit c || ('a' ≤ c && c ≤ 'f') || ('A' ≤ c && c ≤ 'F')

/-- The lower case form of a letter `A` to `Z`; every other character is itself. -/
def lowerChar (c : Char) : Char :=
  if isUpperLetter c then Char.ofNat (c.toNat + 32) else c

/-- The upper case form of a letter `a` to `z`; every other character is itself. -/
def upperChar (c : Char) : Char :=
  if isLowerLetter c then Char.ofNat (c.toNat - 32) else c

/-- Fold the letters `A` to `Z` of a text to lower case. -/
def lowerLetters (s : String) : String := String.ofList (s.toList.map lowerChar)

/-- Equal up to the case of ASCII letters. -/
def sameLetters (s t : String) : Bool := lowerLetters s == lowerLetters t

/-- The value of a hexadecimal digit; zero for any other character. -/
def hexValue (c : Char) : Nat :=
  if isDigit c then c.toNat - 48
  else if 'a' ≤ c && c ≤ 'f' then c.toNat - 87
  else if 'A' ≤ c && c ≤ 'F' then c.toNat - 55
  else 0

/-- The number written by decimal digits, most significant first. -/
def decimalValue (cs : List Char) : Nat :=
  cs.foldl (fun n c => 10 * n + (c.toNat - 48)) 0

/-- The number written by hexadecimal digits, most significant first. -/
def hexadecimalValue (cs : List Char) : Nat :=
  cs.foldl (fun n c => 16 * n + hexValue c) 0

/-- The lower case hexadecimal digit of a value below sixteen. -/
def hexDigit (n : Nat) : Char :=
  if n < 10 then Char.ofNat (48 + n) else Char.ofNat (87 + n)

/-- The lower case hexadecimal text of a number, without leading zeros. -/
def hexText (n : Nat) : String := String.ofList (Nat.toDigits 16 n)

end Stencil.Text
