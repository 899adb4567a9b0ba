import SchemaQuery.CallError
import SchemaQuery.Clause

/-!
# Events

What the calls on a query report: clauses that were added, calls that were refused, and queries that
were compiled. `Event.toRecord` is the entry that the default sink writes for an event.
-/

namespace SchemaQuery

/-- Something that happened to a query on the schema with a handle. -/
inductive Event where
  | predicateAdded (handle path : String) (operator : Operator) (connective : Connective)
      (negated : Bool)
  | groupAdded (handle : String) (parts : Nat) (connective : Connective) (negated : Bool)
  | rejected (handle : String) (entry : EntryPoint) (kind : ErrorKind)
  /-- The numbers of clauses and entries of the compiled query, its limit and its offset. -/
  | compiled (handle : String) (predicates orderBy populate : Nat) (pluck : Option Nat)
      (limit skip : Option UInt64)
deriving DecidableEq, Repr

/-- An entry of a structured log, with named fields. -/
structure LogRecord where
  message : String
  fields : List (String × String)
deriving DecidableEq, Repr

namespace Event

/-- The name of an event. -/
def name : Event → String
  | .predicateAdded .. => "predicate_added"
  | .groupAdded .. => "group_added"
  | .rejected .. => "rejected"
  | .compiled .. => "compiled"

/-- The event of adding a clause. -/
def added (handle : String) : Clause → Event
  | .comparison c => .predicateAdded handle c.path c.operator c.connective c.negated
  | .group clauses connective negated => .groupAdded handle clauses.length connective negated

/-- The text of a number that may be missing. -/
def optionalText (n : Option Nat) : String :=
  match n with
  | none => "None"
  | some n => "Some(" ++ toString n ++ ")"

/-- The log entry of an event. -/
def toRecord : Event → LogRecord
  | .predicateAdded handle path operator connective negated =>
    { message := "predicate added"
      fields := [("schema", handle), ("path", path), ("operator", operator.name),
        ("combinator", connective.name), ("negated", toString negated)] }
  | .groupAdded handle parts connective negated =>
    { message := "predicate group added"
      fields := [("schema", handle), ("parts", toString parts), ("combinator", connective.name),
        ("negated", toString negated)] }
  | .rejected handle entry kind =>
    { message := "builder call rejected"
      fields := [("schema", handle), ("call", entry.name), ("kind", kind.name)] }
  | .compiled handle predicates orderBy populate pluck limit skip =>
    { message := "query compiled"
      fields := [("schema", handle), ("predicates", toString predicates),
        ("order_by", toString orderBy), ("populate", toString populate),
        ("pluck", optionalText pluck), ("limit", optionalText (limit.map (·.toNat))),
        ("skip", optionalText (skip.map (·.toNat)))] }

end Event

end SchemaQuery
