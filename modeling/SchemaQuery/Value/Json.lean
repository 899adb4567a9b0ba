import SchemaQuery.Json
import SchemaQuery.Value

/-!
# Literals and JSON

`Value.toJson` writes a literal as plain JSON: dates become texts, a repeated key of a map keeps its
last value, and a number that is not finite becomes null. `Value.ofJson` reads JSON back; an integer
of the signed range is an integer, and one above it an unsigned integer.
-/

namespace SchemaQuery

namespace Value

/-- The integer literal of an unsigned 64-bit integer: signed if it fits. -/
def ofUInt64 (n : UInt64) : Value :=
  if n.toNat < 0x8000000000000000 then .int (.ofInt n.toNat) else .uint n

/-- The literal of a JSON number. -/
def ofNumber : Json.Number → Value
  | .integer n _ => if n < 0x8000000000000000 then .int (.ofInt n) else .uint (.ofNat n.toNat)
  | .float x _ => .float x

mutual
/-- The literal of a JSON value. -/
def ofJson : Json → Value
  | .null => .null
  | .bool b => .bool b
  | .number n => ofNumber n
  | .string s => .text s
  | .array items => .list (ofItems items)
  | .object members => .map (ofMembers members)

/-- The literals of the items of an array. -/
def ofItems : List Json → List Value
  | [] => []
  | j :: js => ofJson j :: ofItems js

/-- The entries of the members of an object. -/
def ofMembers : List (String × Json) → List (String × Value)
  | [] => []
  | (k, j) :: ms => (k, ofJson j) :: ofMembers ms
end

mutual
/-- The plain JSON of a literal. -/
def toJson : Value → Json
  | .bool b => .bool b
  | .date d => .string d.toText
  | .float x => .ofBinary64 x
  | .int n => .number (.ofInt64 n)
  | .list items => .array (itemsToJson items)
  | .map entries => .object (Json.mergeMembers (entriesToJson entries))
  | .null => .null
  | .text s => .string s
  | .uint n => .ofUInt64 n

/-- The JSON of the items of a list. -/
def itemsToJson : List Value → List Json
  | [] => []
  | v :: vs => toJson v :: itemsToJson vs

/-- The members of the entries of a map, repeated keys included. -/
def entriesToJson : List (String × Value) → List (String × Json)
  | [] => []
  | (k, v) :: es => (k, toJson v) :: entriesToJson es
end

end Value

end SchemaQuery
