/-!
# The shortest decimal that reads back as a double

A finite double is `m · 2 ^ q` with a natural `m`. The reals that round to it form an interval
around it, which includes its ends when `m` is even. `shortest` tries one digit, then two, up to
seventeen: on each decimal grid it looks at the two neighbours of the value, and the first grid
with a neighbour in the interval decides. Of two neighbours in the interval the nearer one is
taken. All comparisons are between natural numbers.
-/

namespace Stencil.Json

/-- A positive decimal `0.d₁d₂… · 10 ^ point`, with its digits most significant first. -/
structure Decimal where
  digits : List Char
  point : Int
  deriving Repr, Inhabited, DecidableEq

/-- A positive binary fraction `mantissa · 2 ^ exponent`, and whether the double below it is only
half as far away as the one above. -/
structure Binary where
  mantissa : Nat
  exponent : Int
  narrowBelow : Bool
  deriving Repr, DecidableEq

/-- The magnitude of a finite double that is not zero. -/
def Binary.ofBits (bits : UInt64) : Binary :=
  let fraction : Nat := bits.toNat % Nat.pow 2 52
  let biased : Nat := bits.toNat / Nat.pow 2 52 % Nat.pow 2 11
  if biased = 0 then ⟨fraction, -1074, false⟩
  else ⟨Nat.pow 2 52 + fraction, (biased : Int) - 1075, fraction == 0 && biased > 1⟩

namespace Binary

/-- Numerators over the common denominator `scale`: the value, the lower end and the upper end of
the interval of reals that round to it. -/
structure Interval where
  value : Nat
  low : Nat
  high : Nat
  scale : Nat
  closed : Bool

/-- The rounding interval of a binary fraction. -/
def interval (b : Binary) : Interval :=
  let up := Nat.pow 2 b.exponent.toNat
  let down := Nat.pow 2 (-b.exponent).toNat
  { value := 4 * b.mantissa * up
    low := (4 * b.mantissa - (if b.narrowBelow then 1 else 2)) * up
    high := (4 * b.mantissa + 2) * up
    scale := 4 * down
    closed := b.mantissa % 2 == 0 }

/-- Whether `n / d` lies in the interval. -/
def Interval.holds (i : Interval) (n d : Nat) : Bool :=
  if i.closed then i.low * d ≤ n * i.scale && n * i.scale ≤ i.high * d
  else i.low * d < n * i.scale && n * i.scale < i.high * d

end Binary

/-- The number of decimal digits of `n`; zero has none. -/
def digitCount (n : Nat) : Nat := if n = 0 then 0 else (Nat.toDigits 10 n).length

/-- The exponent `e` with `10 ^ (e - 1) ≤ n / d < 10 ^ e`, for positive `n` and `d`. -/
def decimalPoint (n d : Nat) : Int :=
  let guess : Int := (digitCount n : Int) - digitCount d
  let lessThan (e : Int) : Bool := n * Nat.pow 10 (-e).toNat < d * Nat.pow 10 e.toNat
  if lessThan guess then guess else guess + 1

/-- The multiple of `10 ^ (point - count)` that is nearest to the value among the two neighbours
inside the interval, as a count of units. -/
def neighbour? (i : Binary.Interval) (point : Int) (count : Nat) : Option Nat :=
  let unit : Int := point - count
  let num := Nat.pow 10 unit.toNat
  let den := Nat.pow 10 (-unit).toNat
  let below := i.value * den / (i.scale * num)
  let above := below + 1
  let hit (k : Nat) : Bool := k != 0 && i.holds (k * num) den
  let twiceGap := 2 * (i.value * den - below * num * i.scale)
  match hit below, hit above with
  | true, true =>
    if twiceGap < num * i.scale then some below
    else if num * i.scale < twiceGap then some above
    else if below % 2 = 0 then some below else some above
  | true, false => some below
  | false, true => some above
  | false, false => none

/-- The decimal with the fewest digits that reads back as the binary fraction. -/
def shortest (b : Binary) : Decimal :=
  let i := b.interval
  let point := decimalPoint i.value i.scale
  match (List.range 17).findSome? fun k => (neighbour? i point (k + 1)).map fun u => (k + 1, u) with
  | some (count, units) =>
    let ds := Nat.toDigits 10 units
    { digits := (ds.reverse.dropWhile (· == '0')).reverse
      point := point + ((ds.length : Int) - count) }
  | none => ⟨['0'], 1⟩

end Stencil.Json
