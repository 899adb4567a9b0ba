import SchemaQuery.Json

/-!
# Numerals

The text of a JSON number, split into its digits, and the number it denotes. An integer that fits
64 bits is kept exact. Every other numeral is a floating-point number, computed as follows: the
digits are collected into a 64-bit integer; digits that no longer fit are dropped, counting
towards the exponent if they stand before the point; the collected integer is rounded, and then
multiplied or divided by the rounded power of ten. Each of these steps rounds once, so the result
may differ from the nearest number in its last place.
-/

namespace SchemaQuery

namespace Json

/-- A numeral: sign, digits before the point, digits after it, and a power of ten with its sign. -/
structure Numeral where
  negative : Bool
  whole : List Nat
  decimals : Option (List Nat)
  exponent : Option (Bool × List Nat)
deriving DecidableEq, Repr

namespace Numeral

/-! ### Reading the text -/

/-- The value of a decimal digit. -/
def digit? (c : Char) : Option Nat :=
  if '0' ≤ c ∧ c ≤ '9' then some (c.toNat - '0'.toNat) else none

/-- The leading digits of a text, and the rest of it. -/
def digits : List Char → List Nat × List Char
  | [] => ([], [])
  | c :: cs =>
    match digit? c with
    | some d => let (ds, rest) := digits cs; (d :: ds, rest)
    | none => ([], c :: cs)

/-- At least one digit. -/
def digits1? (cs : List Char) : Option (List Nat × List Char) :=
  match digits cs with
  | ([], _) => none
  | (ds, rest) => some (ds, rest)

/-- The digits before the point: a single zero, or digits that do not start with one. -/
def whole? : List Char → Option (List Nat × List Char)
  | '0' :: cs => some ([0], cs)
  | cs => digits1? cs

/-- A fraction, if a point follows. -/
def decimals? : List Char → Option (Option (List Nat) × List Char)
  | '.' :: cs => (digits1? cs).map fun (ds, rest) => (some ds, rest)
  | cs => some (none, cs)

/-- The digits of an exponent after its sign. -/
def signedDigits? : List Char → Option ((Bool × List Nat) × List Char)
  | '-' :: cs => (digits1? cs).map fun (ds, rest) => ((true, ds), rest)
  | '+' :: cs => (digits1? cs).map fun (ds, rest) => ((false, ds), rest)
  | cs => (digits1? cs).map fun (ds, rest) => ((false, ds), rest)

/-- An exponent, if its letter follows. -/
def exponent? : List Char → Option (Option (Bool × List Nat) × List Char)
  | c :: cs =>
    if c = 'e' ∨ c = 'E' then (signedDigits? cs).map fun (e, rest) => (some e, rest)
    else some (none, c :: cs)
  | [] => some (none, [])

/-- A numeral without its sign, at the head of a text. -/
def unsigned? (negative : Bool) (cs : List Char) : Option (Numeral × List Char) := do
  let (whole, cs) ← whole? cs
  let (decimals, cs) ← decimals? cs
  let (exponent, cs) ← exponent? cs
  return ({ negative, whole, decimals, exponent }, cs)

/-- The numeral at the head of a text, and the rest of the text. -/
def read? : List Char → Option (Numeral × List Char)
  | '-' :: cs => unsigned? true cs
  | cs => unsigned? false cs

/-! ### The number denoted -/

/-- Appends digits to an integer as long as it stays below `limit`; the digits that do not fit are
returned. -/
def collect (limit : Nat) : Nat → List Nat → Nat × List Nat
  | n, [] => (n, [])
  | n, d :: ds => if n * 10 + d < limit then collect limit (n * 10 + d) ds else (n, d :: ds)

/-- A finite number times a power of ten; none if the result is too large. Powers beyond the range
of binary64 are applied in steps, which end once the number is zero. -/
def timesPowerOfTen (x : Binary64) (e : Int) : Option Binary64 :=
  if e.natAbs ≤ 308 then
    if 0 ≤ e then
      let y := x.mul (.powerOfTen e.natAbs)
      if y.isFinite then some y else none
    else some (x.div (.powerOfTen e.natAbs))
  else if x.isZero then some x
  else if 0 ≤ e then none
  else timesPowerOfTen (x.div (.powerOfTen 308)) (e + 308)
termination_by e.natAbs
decreasing_by omega

/-- The floating-point number with a given sign; none if the magnitude has no finite one. -/
def signedFloat? (negative : Bool) (magnitude : Option Binary64) : Option Number := do
  let x ← magnitude
  let x := if negative then x.negate else x
  if h : x.isFinite = true then some (.float x h) else none

/-- The number `± significand * 10 ^ (scale + exponent)`. An exponent of more than 31 bits needs no
arithmetic: the number is zero, or too large. -/
def float? (negative : Bool) (significand : Nat) (scale : Int) :
    Option (Bool × List Nat) → Option Number
  | none => signedFloat? negative (timesPowerOfTen (.ofInt significand) scale)
  | some (down, ds) =>
    match collect 0x80000000 0 ds with
    | (e, []) =>
      let e : Int := if down then -e else e
      signedFloat? negative (timesPowerOfTen (.ofInt significand) (scale + e))
    | _ =>
      if significand ≠ 0 ∧ !down then none
      else signedFloat? negative (some (.ofInt 0))

/-- The number of an integer numeral of at most 64 bits. A negative zero is a floating-point
number, and so is a negative integer below the signed range. -/
def integer? (negative : Bool) (n : Nat) : Option Number :=
  if negative then
    if h : 0 < n ∧ n ≤ 0x8000000000000000 then some (.integer (-n) ⟨by omega, by omega⟩)
    else signedFloat? true (some (.ofInt n))
  else if h : n < 0x10000000000000000 then some (.integer n ⟨by omega, by omega⟩)
  else none

/-- The number a numeral denotes; none if it is too large for a finite number. -/
def toNumber? (t : Numeral) : Option Number :=
  match collect 0x10000000000000000 0 t.whole, t.decimals, t.exponent with
  | (n, []), none, none => integer? t.negative n
  | (n, dropped), none, e => float? t.negative n dropped.length e
  | (n, dropped), some ds, e =>
    let (m, ignored) := collect 0x10000000000000000 n ds
    float? t.negative m (dropped.length - (ds.length - ignored.length : Nat)) e

end Numeral

end Json

end SchemaQuery
