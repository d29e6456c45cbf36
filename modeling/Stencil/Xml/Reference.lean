import Stencil.Text.Letters
import Stencil.Text.Search
import Stencil.Xml.Fault

/-!
# References and escapes

Reading replaces the five predefined entities and numeric character references; writing puts the
entities back. Text escapes `<`, `>` and `&`; attribute values escape both quotes as well. Reading
undoes either kind of writing.
-/

namespace Stencil.Xml

/-! ## Reading -/

/-- The character that a predefined entity stands for. -/
def entity? (name : List Char) : Option Char :=
  if name = ['l', 't'] then some '<'
  else if name = ['g', 't'] then some '>'
  else if name = ['a', 'm', 'p'] then some '&'
  else if name = ['a', 'p', 'o', 's'] then some '\''
  else if name = ['q', 'u', 'o', 't'] then some '"'
  else none

/-- Read the digits of a number below 2^32, where `soFar` is the value of the digits before. The
first wrong digit or excess of the range is the fault. -/
def numberFrom (base : Nat) (isDigit : Char → Bool) (soFar : Nat) :
    List Char → Except NumberFault Nat
  | [] => .ok soFar
  | c :: cs =>
    if !isDigit c then .error .badDigit
    else
      let n := base * soFar + Text.hexValue c
      if Nat.pow 2 32 ≤ n then .error .tooLarge else numberFrom base isDigit n cs

/-- Read an unsigned number below 2^32. -/
def number (base : Nat) (isDigit : Char → Bool) : List Char → Except NumberFault Nat
  | [] => .error .noDigits
  | '+' :: _ => .error .signed
  | '-' :: _ => .error .signed
  | cs => numberFrom base isDigit 0 cs

/-- The character that a numeric reference stands for, given what follows its `#`. -/
def numbered (digits : List Char) : Except NumberFault Char := do
  let code ← match digits with
    | 'x' :: hexadecimal => number 16 Text.isHexDigit hexadecimal
    | decimal => number 10 Text.isDigit decimal
  if code = 0 then throw .zero
  else if code.isValidChar then return Char.ofNat code
  else throw (.notAScalar code)

/-- The text between an ampersand and the next semicolon, with what follows the semicolon. There
is none if another ampersand comes first. -/
def referenceName? : List Char → Option (List Char × List Char)
  | [] => none
  | ';' :: rest => some ([], rest)
  | '&' :: _ => none
  | c :: cs => (referenceName? cs).map fun (name, rest) => (c :: name, rest)

theorem length_lt_of_referenceName? {cs name rest : List Char}
    (h : referenceName? cs = some (name, rest)) : rest.length < cs.length := by
  fun_induction referenceName? cs generalizing name rest with
  | case1 => simp at h
  | case2 r =>
    simp only [Option.some.injEq, Prod.mk.injEq] at h
    simp [← h.2]
  | case3 => simp at h
  | case4 c cs _ _ ih =>
    obtain ⟨⟨before, behind⟩, hp, he⟩ := Option.map_eq_some_iff.mp h
    simp only [Prod.mk.injEq] at he
    have := ih hp
    simp only [List.length_cons, ← he.2]
    omega

/-- The character that a reference with the given name, at the offset `start`, stands for. -/
def referent (start : Nat) (name : List Char) : Except ReferenceFault Char :=
  match name with
  | '#' :: digits => (numbered digits).mapError .number
  | name =>
    match entity? name with
    | some c => .ok c
    | none => .error (.unknown (start + 1) (start + 1 + Text.byteLength name) (String.ofList name))

/-- Replace the references in a text whose last byte is before the offset `total`. -/
def decodeFrom (total : Nat) : List Char → Except ReferenceFault (List Char)
  | [] => .ok []
  | c :: cs =>
    if c = '&' then
      let start := total - Text.byteLength cs - 1
      match h : referenceName? cs with
      | none => .error (.unfinished start total)
      | some (name, rest) =>
        have := length_lt_of_referenceName? h
        match referent start name with
        | .error fault => .error fault
        | .ok character => (decodeFrom total rest).map (character :: ·)
    else (decodeFrom total cs).map (c :: ·)
termination_by cs => cs.length
decreasing_by
  · exact Nat.lt_succ_of_lt ‹_›
  · exact Nat.lt_succ_self _

/-- Replace the references in a text or attribute value. -/
def decode (cs : List Char) : Except ReferenceFault (List Char) :=
  decodeFrom (Text.byteLength cs) cs

/-! ## Writing -/

/-- A character of a text. -/
def escapeText (c : Char) : List Char :=
  if c = '<' then ['&', 'l', 't', ';']
  else if c = '>' then ['&', 'g', 't', ';']
  else if c = '&' then ['&', 'a', 'm', 'p', ';']
  else [c]

/-- A character of an attribute value. -/
def escapeValue (c : Char) : List Char :=
  if c = '\'' then ['&', 'a', 'p', 'o', 's', ';']
  else if c = '"' then ['&', 'q', 'u', 'o', 't', ';']
  else escapeText c

/-- A text with its markup characters escaped. -/
def escapedText (s : String) : String := String.ofList (s.toList.flatMap escapeText)

/-- An attribute value with its markup characters and quotes escaped. -/
def escapedValue (s : String) : String := String.ofList (s.toList.flatMap escapeValue)

end Stencil.Xml
