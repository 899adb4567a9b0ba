import SchemaQuery.Binary64

/-!
# The shortest decimal of a binary64 word

The decimals that read back as a given word form an interval around its value. `Binary64.shortest`
walks the decimal grids `10 ^ j` from coarse to fine and takes the first one that has a point in the
interval; of the two points around the value it takes the nearer, and the upper one if both are
equally near. `Binary64.toText` writes the digits out in full, without an exponent.
-/

namespace SchemaQuery

namespace Binary64

/-- The value of a positive finite word with the interval that rounds to it, all three over one
denominator. The ends belong to the interval when `closed`. -/
structure Neighbourhood where
  lower : Nat
  value : Nat
  upper : Nat
  denominator : Nat
  closed : Bool

/-- The interval reaches half way to either neighbour; below a power of two the neighbour is only
half as far away. It is closed when the significand is even, for ties round to even. -/
def neighbourhood (x : Binary64) : Neighbourhood :=
  let m := x.significand
  let below := if x.fraction = 0 ∧ 1 < x.exponentField then 1 else 2
  let (num, den) := scale 1 1 x.exponent
  { lower := (4 * m - below) * num
    value := 4 * m * num
    upper := (4 * m + 2) * num
    denominator := 4 * den
    closed := m % 2 == 0 }

/-- Whether `point / denominator` lies in the interval. -/
def Neighbourhood.holds (n : Neighbourhood) (point : Nat) : Bool :=
  if n.closed then decide (n.lower ≤ point ∧ point ≤ n.upper)
  else decide (n.lower < point ∧ point < n.upper)

/-- The neighbourhood measured in units of `10 ^ j`. -/
def Neighbourhood.onGrid (n : Neighbourhood) (j : Int) : Neighbourhood :=
  if 0 ≤ j then { n with denominator := n.denominator * Nat.pow 10 j.toNat }
  else
    let s := Nat.pow 10 (-j).toNat
    { n with lower := n.lower * s, value := n.value * s, upper := n.upper * s }

/-- The grid point of the interval nearest to the value, if the grid has one there. -/
def Neighbourhood.nearest? (n : Neighbourhood) : Option Nat :=
  let d := n.denominator
  let c := n.value / d
  match n.holds (c * d), n.holds ((c + 1) * d) with
  | true, false => some c
  | false, true => some (c + 1)
  | false, false => none
  | true, true => some (if 2 * (n.value % d) < d then c else c + 1)

/-- The first grid with a point in the interval, from `10 ^ j` downwards. Seventeen digits always
suffice, so the fuel does not run out; if it did, the truncated value would be the answer. -/
def Neighbourhood.search (n : Neighbourhood) : Nat → Int → Nat × Int
  | 0, j => ((n.onGrid j).value / (n.onGrid j).denominator, j)
  | fuel + 1, j =>
    match (n.onGrid j).nearest? with
    | some c => (c, j)
    | none => n.search fuel (j - 1)

/-- The number of decimal digits of `n`. -/
def decimalLength (n : Nat) : Nat := (Nat.toDigits 10 n).length

/-- The decimal place of the leading digit of a positive value. -/
def Neighbourhood.leadingPlace (n : Neighbourhood) : Int :=
  if n.denominator ≤ n.value then (decimalLength (n.value / n.denominator) : Int) - 1
  else -(decimalLength ((n.denominator - 1) / n.value) : Int)

/-- The shortest decimal `c * 10 ^ j` that reads back as a positive finite word. -/
def shortest (x : Binary64) : Nat × Int :=
  let n := x.neighbourhood
  n.search 17 n.leadingPlace

/-- The decimal `c * 10 ^ j` in positional notation. -/
def positional (c : Nat) (j : Int) : List Char :=
  let digits := Nat.toDigits 10 c
  if 0 ≤ j then digits ++ List.replicate j.toNat '0'
  else
    let places := (-j).toNat
    let padded := List.replicate (places + 1 - digits.length) '0' ++ digits
    let whole := padded.length - places
    let decimals := (padded.drop whole).reverse.dropWhile (· == '0') |>.reverse
    if decimals.isEmpty then padded.take whole else padded.take whole ++ '.' :: decimals

/-- The text of a word: the shortest decimal that reads back, in positional notation and without a
fraction when it is whole. -/
def toText (x : Binary64) : String :=
  let sign := if x.isNegative then "-" else ""
  if x.isNaN then "NaN"
  else if !x.isFinite then sign ++ "inf"
  else if x.isZero then sign ++ "0"
  else
    let (c, j) := x.shortest
    sign ++ String.ofList (positional c j)

end Binary64

end SchemaQuery
