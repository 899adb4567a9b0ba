import SchemaQuery.CallError
import SchemaQuery.Clause
import SchemaQuery.Config
import SchemaQuery.Schema.Resolve

/-!
# Checking conditions

The schema and the configuration that calls are checked under, and the check of a condition, which
gives the clause that stands for it. A comparison is refused for the first of these reasons that
applies: its operator is unknown, its path leads nowhere, its property cannot be compared in this
way, its literal cannot be compared with. Membership in a list looks at the list only, not at the
type of the property.
-/

namespace SchemaQuery

/-- What calls are checked under. -/
structure Context where
  schema : Schema
  config : Config

/-- How the next clause is joined and whether it is negated. -/
structure Flags where
  connective : Connective := .and
  negated : Bool := false
deriving DecidableEq, Repr, Inhabited

namespace Context

/-- The handle of the schema. -/
def handle (c : Context) : String := c.schema.handle

/-- The property that a path names, within the configured bound. -/
def resolve (c : Context) (path : String) : Except PathError Property :=
  c.schema.resolve path c.config.pathBound

/-- Whether a literal may be compared with. -/
def accepts (c : Context) (v : Value) : Bool :=
  v.isComparable && (!c.config.rejectFalsy || v.isTruthy)

/-- The operator of a comparison; without a text it is equality. -/
def checkOperator (c : Context) : Option String → Except CallError SignedOperator
  | none => .ok ⟨.eq, false⟩
  | some text =>
    match SignedOperator.ofText? text with
    | some op => .ok op
    | none => .error (.invalidOperator c.handle text)

/-- Membership needs a list of literals that may be compared with. -/
def checkElements (c : Context) (path : String) (value : Value) : Except CallError Unit :=
  match value.asList? with
  | none => .error (.value .filter c.handle (.notList path))
  | some items =>
    match items.find? (!c.accepts ·) with
    | some bad => .error (.value .filter c.handle (.element path bad))
    | none => .ok ()

/-- Other operators need a primitive property, or, for equality, an array of a primitive type. -/
def checkProperty (c : Context) (path : String) (p : Property) (op : Operator) :
    Except CallError Unit :=
  if p.isArray then
    if op ≠ .eq then .error (.operatorNotSupported c.handle path op)
    else if (p.itemType?.map (·.isPrimitive)).getD false then .ok ()
    else .error (.typeMismatch .filter c.handle path (.elements p.itemType?))
  else if p.type.isPrimitive then .ok ()
  else .error (.typeMismatch .filter c.handle path (.comparison p.type))

/-- Other operators need a literal that may be compared with. -/
def checkLiteral (c : Context) (path : String) (value : Value) : Except CallError Unit :=
  if c.accepts value then .ok () else .error (.value .filter c.handle (.literal path value))

/-- The comparison for a path, the text of an operator and a literal. -/
def compare (c : Context) (flags : Flags) (path : String) (operator : Option String)
    (value : Value) : Except CallError Comparison := do
  let op ← c.checkOperator operator
  let property ← (c.resolve path).mapError CallError.path
  if op.operator = .oneOf then c.checkElements path value
  else
    c.checkProperty path property op.operator
    c.checkLiteral path value
  return {
    path, property, value
    operator := op.operator
    connective := flags.connective
    negated := flags.negated || op.negated }

/-- Comparisons for equality, one per pair. -/
def equalities (c : Context) : List (String × Value) → Except CallError (List Clause)
  | [] => .ok []
  | (path, value) :: pairs => do
    let first ← c.compare {} path none value
    let others ← c.equalities pairs
    return .comparison first :: others

/-- The clause for a condition. -/
def clause (c : Context) (flags : Flags) : Condition → Except CallError Clause
  | .hash pairs => do
    let clauses ← c.equalities pairs
    return .group clauses flags.connective flags.negated
  | .compare path operator value => do
    let comparison ← c.compare flags path operator value
    return .comparison comparison
  | .malformed why => .error (.argument .filter c.handle (.malformed why))

end Context

end SchemaQuery
