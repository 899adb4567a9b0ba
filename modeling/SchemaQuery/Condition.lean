import SchemaQuery.Value

/-!
# Conditions

What a caller asks a query to filter by: a path compared with a literal, or a list of paths that
must equal their literals. `Condition.ofValues` recognises a condition in a list of dynamic
arguments, by their number and kinds.
-/

namespace SchemaQuery

/-- Why dynamic arguments are no condition. -/
inductive Malformation where
  | noArguments
  /-- A single argument that is not a map. -/
  | single (typeName : String)
  | path (typeName : String)
  | operator (typeName : String)
  | count (n : Nat)
  /-- A reason given by a caller. -/
  | custom (reason : String)
deriving DecidableEq, Repr

/-- The reason in words. -/
def Malformation.reason : Malformation → String
  | .noArguments => "no where arguments"
  | .single typeName => "single where argument must be an object, got " ++ typeName
  | .path typeName => "where path must be a string, got " ++ typeName
  | .operator typeName => "where operator must be a string, got " ++ typeName
  | .count n =>
    "invalid where arguments, expect (path, [operator], value), got " ++ toString n ++ " arguments"
  | .custom reason => reason

/-- What to filter by. -/
inductive Condition where
  /-- Every path equals its literal. -/
  | hash (pairs : List (String × Value))
  /-- A comparison; without the text of an operator it is equality. -/
  | compare (path : String) (operator : Option String) (value : Value)
  /-- Arguments that are no condition; refused when used. -/
  | malformed (why : Malformation)

namespace Condition

/-- The condition that dynamic arguments stand for: one map, a path and a literal, or a path, an
operator and a literal. -/
def ofValues : List Value → Condition
  | [] => .malformed .noArguments
  | [.map pairs] => .hash pairs
  | [v] => .malformed (.single v.typeName)
  | [.text path, value] => .compare path none value
  | [v, _] => .malformed (.path v.typeName)
  | [.text path, .text operator, value] => .compare path (some operator) value
  | [.text _, v, _] => .malformed (.operator v.typeName)
  | [v, _, _] => .malformed (.path v.typeName)
  | vs => .malformed (.count vs.length)

end Condition

end SchemaQuery
