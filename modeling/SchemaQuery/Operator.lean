/-!
# Comparison operators

The seven operators, their spellings, and the text of an operator, which may be negated by a leading
`not`. A spelling is matched exactly.
-/

namespace SchemaQuery

/-- A comparison operator. -/
inductive Operator where
  | eq | ne | gt | ge | lt | le
  /-- Membership in a list. -/
  | oneOf
deriving DecidableEq, Repr

namespace Operator

/-- The name of an operator. -/
def name : Operator → String
  | .eq => "eq"
  | .ne => "ne"
  | .gt => "gt"
  | .ge => "ge"
  | .lt => "lt"
  | .le => "le"
  | .oneOf => "in"

/-- All operators. -/
def all : List Operator := [.eq, .ne, .gt, .ge, .lt, .le, .oneOf]

/-- The symbols that stand for an operator beside its name. -/
def aliases : List (String × Operator) :=
  [("==", .eq), ("=", .eq), ("!=", .ne), ("<>", .ne), (">", .gt), (">=", .ge), ("<", .lt),
    ("<=", .le)]

/-- All spellings, names first. -/
def spellings : List (String × Operator) := all.map (fun op => (op.name, op)) ++ aliases

/-- The operator with a spelling. -/
def ofSpelling? (s : String) : Option Operator := (spellings.find? (·.1 == s)).map (·.2)

/-- All spellings in one text, for messages. -/
def expected : String := ", ".intercalate (spellings.map (·.1))

end Operator

/-- An operator, possibly negated. -/
structure SignedOperator where
  operator : Operator
  negated : Bool
deriving DecidableEq, Repr

namespace SignedOperator

/-- What stands before the spelling of a negated operator. -/
def negation : String := "not "

/-- The operator that a text stands for. Only one negation is read. -/
def ofText? (s : String) : Option SignedOperator :=
  match negation.toList.isPrefixOf? s.toList with
  | some rest => (Operator.ofSpelling? (String.ofList rest)).map (⟨·, true⟩)
  | none => (Operator.ofSpelling? s).map (⟨·, false⟩)

end SignedOperator

end SchemaQuery
