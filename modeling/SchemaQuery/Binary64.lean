/-!
# Binary64 words

A binary floating-point number, held as its 64 bits so that it has decidable identity, next to the
rational it stands for: a finite word is `± significand * 2 ^ exponent`. Two words may be *equal as
numbers* without being the same word (the two zeros), and a NaN is equal to nothing, itself
included; `Binary64.sameNumber` is that comparison.

Arithmetic is exact rational arithmetic followed by one rounding, `Binary64.ofRatio`, which takes
the nearest representable number and breaks ties to the even significand.
-/

namespace SchemaQuery

/-- A floating-point number in the binary64 interchange format, by its bits. -/
structure Binary64 where
  bits : UInt64
deriving DecidableEq, Inhabited, Repr

/-- A floating-point number in the binary32 interchange format, by its bits. -/
structure Binary32 where
  bits : UInt32
deriving DecidableEq, Inhabited, Repr

namespace Binary64

/-! ### Fields and classes -/

/-- The weight of the sign bit. -/
def signWeight : Nat := 0x8000000000000000

/-- The weight of the lowest exponent bit, which is that of the implicit leading bit of a
significand. -/
def leadingWeight : Nat := 0x10000000000000

/-- The sign bit; set on negative numbers and on the negative zero. -/
def isNegative (x : Binary64) : Bool := decide (signWeight ≤ x.bits.toNat)

/-- The eleven exponent bits. -/
def exponentField (x : Binary64) : Nat := x.bits.toNat / leadingWeight % 0x800

/-- The fifty-two trailing significand bits. -/
def fraction (x : Binary64) : Nat := x.bits.toNat % leadingWeight

/-- Neither an infinity nor a NaN. -/
def isFinite (x : Binary64) : Bool := decide (x.exponentField ≠ 2047)

/-- Not a number: the exponent field is full and the fraction is not zero. -/
def isNaN (x : Binary64) : Bool := decide (x.exponentField = 2047 ∧ x.fraction ≠ 0)

/-- One of the two zeros. -/
def isZero (x : Binary64) : Bool := decide (x.exponentField = 0 ∧ x.fraction = 0)

/-- The integer significand of a finite word; the leading bit is implicit unless the exponent
field is zero. -/
def significand (x : Binary64) : Nat :=
  if x.exponentField = 0 then x.fraction else x.fraction + leadingWeight

/-- The power of two that scales `significand`. -/
def exponent (x : Binary64) : Int := (max x.exponentField 1 : Nat) - 1075

/-- Equality of numbers: the two zeros are equal, and a NaN is equal to nothing. -/
def sameNumber (x y : Binary64) : Bool :=
  !x.isNaN && !y.isNaN && (decide (x = y) || (x.isZero && y.isZero))

/-! ### Building words -/

/-- A word from its sign and its lower 63 bits. -/
def ofSignMagnitude (negative : Bool) (magnitude : Nat) : Binary64 :=
  ⟨UInt64.ofNat (magnitude + if negative then signWeight else 0)⟩

/-- The magnitude bits of the infinities. -/
def infinityMagnitude : Nat := 2047 * leadingWeight

/-- The word with the opposite sign. -/
def negate (x : Binary64) : Binary64 :=
  ofSignMagnitude (!x.isNegative) (x.bits.toNat % signWeight)

/-! ### Rounding -/

/-- The integer nearest to `num / den`; of two equally near ones, the even one. -/
def roundDiv (num den : Nat) : Nat :=
  let q := num / den
  let r := num % den
  if 2 * r < den then q else if den < 2 * r then q + 1 else q + q % 2

/-- Numerator and denominator of `num / den * 2 ^ e`. -/
def scale (num den : Nat) (e : Int) : Nat × Nat :=
  if 0 ≤ e then (num * Nat.pow 2 e.toNat, den) else (num, den * Nat.pow 2 (-e).toNat)

/-- The binade of `num / den`: the least scale, not below the subnormal one, at which the quotient
has at most 53 bits. The quotient lies within a factor of two of `2 ^ d`, so one step decides. -/
def scaleFor (num den : Nat) : Int :=
  let d : Int := (num.log2 : Int) - den.log2
  let e := max (d - 53) (-1074)
  let (n, m) := scale num den (-e)
  if n / m < 2 * leadingWeight then e else e + 1

/-- The word nearest to `± num / den`, ties to the even significand; too large a magnitude gives
an infinity. The bits of scale and significand are added, so a significand that rounds up to
`2 ^ 53` carries into the exponent field, as it should. -/
def ofRatio (negative : Bool) (num den : Nat) : Binary64 :=
  if num = 0 then ofSignMagnitude negative 0
  else
    let e := scaleFor num den
    let (n, m) := scale num den (-e)
    let magnitude := (e + 1074).toNat * leadingWeight + roundDiv n m
    ofSignMagnitude negative (min magnitude infinityMagnitude)

/-- The word nearest to an integer. -/
def ofInt (n : Int) : Binary64 := ofRatio (decide (n < 0)) n.natAbs 1

/-- The word nearest to `10 ^ n`. -/
def powerOfTen (n : Nat) : Binary64 := ofRatio false (Nat.pow 10 n) 1

/-! ### Arithmetic on finite words -/

/-- The rounded product of two finite words. -/
def mul (x y : Binary64) : Binary64 :=
  let (num, den) := scale (x.significand * y.significand) 1 (x.exponent + y.exponent)
  ofRatio (x.isNegative != y.isNegative) num den

/-- The rounded quotient of two finite words, the divisor not being zero. -/
def div (x y : Binary64) : Binary64 :=
  let (num, den) := scale x.significand y.significand (x.exponent - y.exponent)
  ofRatio (x.isNegative != y.isNegative) num den

/-! ### Widening -/

/-- The word of the same number in the wider format. A NaN keeps its payload and becomes quiet. -/
def ofBinary32 (x : Binary32) : Binary64 :=
  let n := x.bits.toNat
  let negative := decide (0x80000000 ≤ n)
  let field := n / 0x800000 % 0x100
  let fraction := n % 0x800000
  if field = 255 then
    let payload := if fraction = 0 then 0 else fraction * 0x20000000 ||| 0x8000000000000
    ofSignMagnitude negative (infinityMagnitude + payload)
  else
    let significand := if field = 0 then fraction else fraction + 0x800000
    ofRatio negative (significand * Nat.pow 2 (max field 1)) (Nat.pow 2 150)

end Binary64

end SchemaQuery
