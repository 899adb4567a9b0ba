import SchemaQuery.Binary64
import SchemaQuery.Keyed

/-!
# JSON values

A JSON value whose objects keep the order of their members. Numbers come in two kinds that never
mix: the integers of the signed or unsigned 64-bit range, and finite binary64 numbers.
-/

namespace SchemaQuery

namespace Json

/-- A JSON number: an integer of the 64-bit ranges, or a finite floating-point number. -/
inductive Number where
  | integer (n : Int) (inRange : -0x8000000000000000 ≤ n ∧ n < 0x10000000000000000)
  | float (x : Binary64) (finite : x.isFinite = true)
deriving DecidableEq

end Json

/-- A JSON value; the members of an object are in order. -/
inductive Json where
  | null
  | bool (b : Bool)
  | number (n : Json.Number)
  | string (s : String)
  | array (items : List Json)
  | object (members : List (String × Json))
deriving Inhabited

namespace Json

/-! ### Numbers -/

/-- The number of a signed 64-bit integer. -/
def Number.ofInt64 (n : Int64) : Number :=
  .integer n.toInt ⟨by have := n.le_toInt; omega, by have := n.toInt_lt; omega⟩

/-- The number of an unsigned 64-bit integer. -/
def Number.ofUInt64 (n : UInt64) : Number :=
  .integer n.toNat ⟨by omega, by have := n.toNat_lt; omega⟩

/-- The value of a floating-point number: the number itself when it is finite. There is no JSON
number for an infinity or a NaN, and they become null. -/
def ofBinary64 (x : Binary64) : Json :=
  if h : x.isFinite = true then .number (.float x h) else .null

/-- The value of an unsigned 64-bit integer. -/
def ofUInt64 (n : UInt64) : Json := .number (.ofUInt64 n)

/-! ### Members -/

/-- The members that remain when a repeated key keeps its first position and its last value. -/
def mergeMembers (members : List (String × Json)) : List (String × Json) :=
  Keyed.collapse (·.1) members

/-- The value of the first member with a key. -/
def member? (key : String) (members : List (String × Json)) : Option Json :=
  (members.find? (·.1 == key)).map (·.2)

end Json

end SchemaQuery
