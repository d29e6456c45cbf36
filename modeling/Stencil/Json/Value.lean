import Stencil.Keyed

/-!
# JSON values

Integers and doubles are kept apart: `1` is an integer and `1.0` is a double. The members of an
object are a `Keyed` table, so a repeated key keeps its last value and members are visited in the
byte order of their keys.
-/

namespace Stencil.Json

/-- A number: an integer of the signed or unsigned 64-bit range, or a double. -/
inductive Number where
  | int (value : Int)
  | double (value : Float)
  deriving Repr, Inhabited

/-- A JSON value. -/
inductive Value where
  | null
  | bool (value : Bool)
  | number (value : Number)
  | string (value : String)
  | array (items : List Value)
  | object (members : List (String × Value))
  deriving Repr, Inhabited

/-- Equal integers or equal doubles; an integer never equals a double. -/
def Number.same : Number → Number → Bool
  | .int m, .int n => m == n
  | .double x, .double y => x == y
  | _, _ => false

mutual

/-- Equality of values; objects are equal when their members are, in key order. -/
def Value.same : Value → Value → Bool
  | .null, .null => true
  | .bool a, .bool b => a == b
  | .number m, .number n => m.same n
  | .string s, .string t => s == t
  | .array xs, .array ys => sameItems xs ys
  | .object xs, .object ys => sameMembers xs ys
  | _, _ => false

/-- Equality of lists of values. -/
def sameItems : List Value → List Value → Bool
  | [], [] => true
  | x :: xs, y :: ys => x.same y && sameItems xs ys
  | _, _ => false

/-- Equality of member lists. -/
def sameMembers : List (String × Value) → List (String × Value) → Bool
  | [], [] => true
  | (k, x) :: xs, (l, y) :: ys => k == l && x.same y && sameMembers xs ys
  | _, _ => false

end

/-- The member `key` of an object; nothing for any other value. -/
def Value.member? : Value → String → Option Value
  | .object members, key => Keyed.get? members key
  | _, _ => none

/-- The items of an array; nothing for any other value. -/
def Value.items? : Value → Option (List Value)
  | .array items => some items
  | _ => none

/-- The members of an object; nothing for any other value. -/
def Value.members? : Value → Option (Keyed Value)
  | .object members => some members
  | _ => none

end Stencil.Json
