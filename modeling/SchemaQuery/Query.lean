import SchemaQuery.Filter.Block
import SchemaQuery.Query.Descriptor

/-!
# Queries

A query under construction: a filter with the order, the bounds, the selection and the related
records asked for. `Query.apply` makes a call; one that fails leaves the query as it was.
`Query.descriptor` is the compiled form, in which a path that was ordered by or populated more than
once has one entry.
-/

namespace SchemaQuery

/-- A query under construction. -/
structure Query where
  filter : Filter
  orderBy : List OrderEntry
  populate : List PopulateEntry
  pluck : Option (List Selection)
  limit : Option UInt64
  skip : Option UInt64

/-- A call on a query. -/
inductive QueryCall where
  | filter (call : FilterCall)
  | orderBy (path : String) (direction : Direction)
  /-- An order whose direction is given by name. -/
  | orderByName (path direction : String)
  | limit (n : UInt64)
  | skip (n : UInt64)
  | pluck (paths : List String)
  | populate (path handle : String)
  | compile

namespace Query

/-- A query without any calls made on it. -/
def start (c : Context) : Query := ⟨.start c, [], [], none, none, none⟩

/-- What the query's calls are checked under. -/
def context (q : Query) : Context := q.filter.context

/-! ### Compiling -/

/-- The compiled form of the query. -/
def descriptor (q : Query) : Descriptor :=
  { limit := q.limit
    skip := q.skip
    clauses := q.filter.clauses
    orderBy := Keyed.collapse OrderEntry.path q.orderBy
    pluck := q.pluck
    populate := Keyed.collapse PopulateEntry.path q.populate }

/-- The event of compiling the query. -/
def compiledEvent (q : Query) : Event :=
  let d := q.descriptor
  .compiled q.context.handle d.clauses.length d.orderBy.length d.populate.length
    (d.pluck.map (·.length)) d.limit d.skip

end Query

/-! ### Checks -/

namespace Context

/-- The property to order by, which must be primitive. -/
def checkOrder (c : Context) (path : String) : Except CallError Property := do
  let p ← (c.resolve path).mapError CallError.path
  if p.type.isPrimitive then return p
  else .error (.typeMismatch .order c.handle path (.order p.type))

/-- The direction with a name. -/
def checkDirection (c : Context) (direction : String) : Except CallError Direction :=
  match Direction.ofName? direction with
  | some d => .ok d
  | none => .error (.argument .order c.handle (.direction direction))

/-- A limit must not exceed the configured one. -/
def checkLimit (c : Context) (n : UInt64) : Except CallError Unit :=
  match c.config.maxLimit with
  | some max => if max < n then .error (.argument .limit c.handle (.limit n max)) else .ok ()
  | none => .ok ()

/-- The selection of some paths, of which the first has the given index. -/
def selections (c : Context) (index : Nat) : List String → Except CallError (List Selection)
  | [] => .ok []
  | path :: paths => do
    let property ← (c.resolve path).mapError (CallError.pluck index)
    let others ← c.selections (index + 1) paths
    return ⟨path, property⟩ :: others

/-- The selection of some paths, at least one. -/
def checkPluck (c : Context) (paths : List String) : Except CallError (List Selection) := do
  let fields ← c.selections 0 paths
  if fields.isEmpty then .error (.argument .pluck c.handle .noPaths) else return fields

/-- The property to populate, which must hold one related id, or a list of them. -/
def checkPopulate (c : Context) (path handle : String) : Except CallError Property := do
  if handle = "" then .error (.argument .populate c.handle (.noHandle path))
  else
    let p ← (c.resolve path).mapError CallError.path
    if p.type = .string ∨ p.itemType? = some .string then return p
    else .error (.typeMismatch .populate c.handle path (.populate p.type))

end Context

/-! ### Calls -/

namespace Query

/-- A reply of success that reports nothing. -/
def accept (q : Query) : Reply Query := { error := none, state := q, events := [] }

/-- Reports an error and leaves the query alone. -/
def refuse (q : Query) (entry : EntryPoint) (e : CallError) : Reply Query :=
  { error := some e, state := q, events := [.rejected q.context.handle entry e.kind] }

/-- Goes on with the result of a check, or refuses the call. -/
def checked {α : Type} (q : Query) (entry : EntryPoint) (check : Except CallError α)
    (update : α → Query) : Reply Query :=
  match check with
  | .ok a => (update a).accept
  | .error e => q.refuse entry e

/-- Orders by a path. -/
def order (q : Query) (path : String) (direction : Direction) : Reply Query :=
  q.checked .order (q.context.checkOrder path) fun property =>
    { q with orderBy := q.orderBy ++ [⟨path, property, direction⟩] }

/-- Zero clears a bound. -/
def bound (n : UInt64) : Option UInt64 := if n = 0 then none else some n

/-- Makes a call on a query. -/
def apply (q : Query) : QueryCall → Reply Query
  | .filter call => (q.filter.apply call).map fun filter => { q with filter }
  | .orderBy path direction => q.order path direction
  | .orderByName path name =>
    match q.context.checkDirection name with
    | .ok direction => q.order path direction
    | .error e => q.refuse .order e
  | .limit n => q.checked .limit (q.context.checkLimit n) fun _ => { q with limit := bound n }
  | .skip n => { q with skip := bound n }.accept
  | .pluck paths =>
    q.checked .pluck (q.context.checkPluck paths) fun fields => { q with pluck := some fields }
  | .populate path handle =>
    q.checked .populate (q.context.checkPopulate path handle) fun property =>
      { q with populate := q.populate ++ [⟨path, property, handle⟩] }
  | .compile => { error := none, state := q, events := [q.compiledEvent] }

end Query

end SchemaQuery
