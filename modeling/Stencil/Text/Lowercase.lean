import Stencil.Text.LetterCase

/-!
# Lower case

The lower case form of a text in any script. Every letter is mapped on its own except for two: the
dotted capital I becomes two characters, and a capital sigma becomes the final form at the end of a
word. A word ends where, case-ignorable characters aside, a cased letter stands before and none
stands after.
-/

namespace Stencil.Text

/-- Whether a code point lies in one of the ranges. -/
def inRanges (ranges : List (Nat × Nat)) (n : Nat) : Bool :=
  ranges.any fun (first, last) => first ≤ n && n ≤ last

/-- The lower case form of one letter. -/
def lowerLetter (c : Char) : Char :=
  let n := c.toNat
  match lowerRanges.find? fun (first, last, step, _) =>
      first ≤ n && n ≤ last && (n - first) % step == 0 with
  | some (_, _, _, shift) => Char.ofNat (n + shift).toNat
  | none => c

/-- Whether, case-ignorable characters aside, a cased letter comes first. -/
def casedComesFirst (cs : List Char) : Bool :=
  match cs.dropWhile fun c => inRanges caseIgnorableRanges c.toNat with
  | [] => false
  | c :: _ => inRanges casedRanges c.toNat

/-- The lower case form of a text; `before` holds the characters before it, the nearest first. -/
def lowercaseFrom (before : List Char) : List Char → List Char
  | [] => []
  | c :: cs =>
    let here :=
      if c = 'Σ' then [if casedComesFirst before && !casedComesFirst cs then 'ς' else 'σ']
      else if c = 'İ' then ['i', '\u0307']
      else [lowerLetter c]
    here ++ lowercaseFrom (c :: before) cs

/-- The lower case form of a text. -/
def lowercase (s : String) : String := String.ofList (lowercaseFrom [] s.toList)

end Stencil.Text
