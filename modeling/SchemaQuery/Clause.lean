import SchemaQuery.Operator
import SchemaQuery.Schema.Json
import SchemaQuery.Value.Json

/-!
# Clauses

The checked form of a condition: comparisons, and groups of clauses. The clauses of a list stand in
the order of evaluation, and each says how it is joined to what is before it.
-/

namespace SchemaQuery

/-- How a clause is joined to the clauses before it. -/
inductive Connective where
  | and
  | or
deriving DecidableEq, Repr, Inhabited

/-- The name of a connective. -/
def Connective.name : Connective → String
  | .and => "and"
  | .or => "or"

/-- A checked comparison of the property at a path with a literal. -/
structure Comparison where
  path : String
  property : Property
  operator : Operator
  value : Value
  connective : Connective
  negated : Bool

/-- A comparison or a group of clauses. -/
inductive Clause where
  | comparison (c : Comparison)
  | group (clauses : List Clause) (connective : Connective) (negated : Bool)

/-! ### Equality -/

/-- Equality of comparisons, with equal numbers being equal literals. -/
def Comparison.same (a b : Comparison) : Bool :=
  a.path == b.path && a.property == b.property && a.operator == b.operator
    && a.value == b.value && a.connective == b.connective && a.negated == b.negated

namespace Clause

mutual
/-- Equality of clauses, with equal numbers being equal literals. -/
def same : Clause → Clause → Bool
  | .comparison a, .comparison b => a.same b
  | .group as c n, .group bs d m => sameAll as bs && c == d && n == m
  | _, _ => false

/-- Equality of lists of clauses. -/
def sameAll : List Clause → List Clause → Bool
  | [], [] => true
  | a :: as, b :: bs => same a b && sameAll as bs
  | _, _ => false
end

/-- How the clause is joined to the clauses before it. -/
def connective : Clause → Connective
  | .comparison c => c.connective
  | .group _ connective _ => connective

/-- Whether the clause is negated. -/
def negated : Clause → Bool
  | .comparison c => c.negated
  | .group _ _ negated => negated

end Clause

/-! ### JSON -/

/-- The JSON of a comparison. -/
def Comparison.toJson (c : Comparison) : Json :=
  .object [("type", .string "part"), ("path", .string c.path), ("prop", c.property.toJson),
    ("operator", .string c.operator.name), ("value", c.value.toJson),
    ("bool", .string c.connective.name), ("not", .bool c.negated)]

namespace Clause

mutual
/-- The JSON of a clause. -/
def toJson : Clause → Json
  | .comparison c => c.toJson
  | .group clauses connective negated =>
    .object [("type", .string "group"), ("parts", .array (listToJson clauses)),
      ("bool", .string connective.name), ("not", .bool negated)]

/-- The JSON of the clauses of a list. -/
def listToJson : List Clause → List Json
  | [] => []
  | c :: cs => c.toJson :: listToJson cs
end

end Clause

end SchemaQuery
