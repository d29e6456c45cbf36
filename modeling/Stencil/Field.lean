import Stencil.Json.Writer
import Stencil.Text.Search

/-!
# Fields of records

How the value of a field becomes text, when it counts as true, and which field an attribute name
stands for.
-/

namespace Stencil

/-- The text of a value: strings as they are, `null` empty, anything else as compact JSON. -/
def fieldText : Json.Value → String
  | .string s => s
  | .null => ""
  | other => other.text

/-- Whether a number is not zero. -/
def Json.Number.isNonzero : Json.Number → Bool
  | .int n => n != 0
  | .double x => x.toBits.toNat % Nat.pow 2 63 != 0

/-- Whether a value counts as true: `null`, `false`, zeros and the empty string do not. -/
def isTruthy : Json.Value → Bool
  | .null => false
  | .bool b => b
  | .number n => n.isNonzero
  | .string s => !s.isEmpty
  | .array _ => true
  | .object _ => true

/-- Fold each hyphen that a lower case letter follows into the upper case letter. -/
def foldHyphens : List Char → List Char
  | [] => []
  | [c] => [c]
  | c :: d :: rest =>
    if c = '-' ∧ Text.isLowerLetter d then Text.upperChar d :: foldHyphens rest
    else c :: foldHyphens (d :: rest)

/-- The key of a `data-` attribute: the rest of its name with the hyphens folded. -/
def dataKey? (name : String) : Option String :=
  (Text.dropStem? ['d', 'a', 't', 'a', '-'] name.toList).map fun rest =>
    String.ofList (foldHyphens rest)

end Stencil
