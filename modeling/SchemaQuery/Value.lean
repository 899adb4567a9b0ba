import SchemaQuery.Binary64.Shortest
import SchemaQuery.Date

/-!
# Literals

The values that a predicate compares with. Booleans, dates, numbers and texts are *comparable*;
null, lists and maps exist so that any dynamic input can be held, and refused with a reason.

Equality of literals, `Value.same`, compares floating-point numbers as numbers: it is symmetric and
transitive, but a literal with a NaN in it is not equal to itself.
-/

namespace SchemaQuery

/-- A literal supplied to a predicate. -/
inductive Value where
  | bool (b : Bool)
  | date (d : Date)
  | float (x : Binary64)
  | int (n : Int64)
  | list (items : List Value)
  /-- Keys and values in order; a key may repeat. -/
  | map (entries : List (String × Value))
  | null
  | text (s : String)
  /-- An integer above the signed 64-bit range. -/
  | uint (n : UInt64)
deriving Inhabited

namespace Value

/-! ### Classification -/

/-- Whether a comparison can use the literal. -/
def isComparable : Value → Bool
  | .bool _ | .date _ | .float _ | .int _ | .text _ | .uint _ => true
  | .list _ | .map _ | .null => false

/-- False, zero, NaN, the empty text and null count as false, everything else as true. -/
def isTruthy : Value → Bool
  | .bool b => b
  | .float x => !x.isZero && !x.isNaN
  | .int n => n != 0
  | .text s => s != ""
  | .null => false
  | .uint n => n != 0
  | .date _ | .list _ | .map _ => true

/-- The name of the literal's type in messages. -/
def typeName : Value → String
  | .bool _ => "boolean"
  | .date _ => "date"
  | .float _ => "number"
  | .int _ => "integer"
  | .list _ => "array"
  | .map _ => "object"
  | .null => "null"
  | .text _ => "string"
  | .uint _ => "integer"

/-- The text of a text literal. -/
def asText? : Value → Option String
  | .text s => some s
  | _ => none

/-- The items of a list literal. -/
def asList? : Value → Option (List Value)
  | .list items => some items
  | _ => none

/-! ### Equality -/

mutual
/-- Equality of literals. Literals of different kinds are never equal, not even equal numbers;
lists and maps are compared in order. -/
def same : Value → Value → Bool
  | .bool a, .bool b => a == b
  | .date a, .date b => a == b
  | .float a, .float b => a.sameNumber b
  | .int a, .int b => a == b
  | .list a, .list b => sameItems a b
  | .map a, .map b => sameEntries a b
  | .null, .null => true
  | .text a, .text b => a == b
  | .uint a, .uint b => a == b
  | _, _ => false

/-- Equality of lists of literals. -/
def sameItems : List Value → List Value → Bool
  | [], [] => true
  | a :: as, b :: bs => same a b && sameItems as bs
  | _, _ => false

/-- Equality of the entries of two maps. -/
def sameEntries : List (String × Value) → List (String × Value) → Bool
  | [], [] => true
  | (k, a) :: as, (l, b) :: bs => k == l && same a b && sameEntries as bs
  | _, _ => false
end

instance : BEq Value := ⟨same⟩

/-! ### Text -/

mutual
/-- The text of a literal in messages. Texts are not quoted. -/
def toText : Value → String
  | .bool b => if b then "true" else "false"
  | .date d => d.toText
  | .float x => x.toText
  | .int n => toString n.toInt
  | .list items => "[" ++ ", ".intercalate (itemTexts items) ++ "]"
  | .map entries => "\x7b" ++ ", ".intercalate (entryTexts entries) ++ "\x7d"
  | .null => "null"
  | .text s => s
  | .uint n => toString n.toNat

/-- The texts of the items of a list. -/
def itemTexts : List Value → List String
  | [] => []
  | v :: vs => toText v :: itemTexts vs

/-- The texts of the entries of a map. -/
def entryTexts : List (String × Value) → List String
  | [] => []
  | (k, v) :: es => (k ++ ": " ++ toText v) :: entryTexts es
end

end Value

end SchemaQuery
