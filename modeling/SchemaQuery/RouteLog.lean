/-!
# Route logs

Messages filed under routes, where a route names a place in a schema and the empty route its root.
`RouteLog.add` and `RouteLog.merge` keep the routes in ascending order, each with the messages in
the order they came.
-/

namespace SchemaQuery

/-- Messages by route. -/
structure RouteLog where
  entries : List (String × List String)
deriving DecidableEq, Repr

namespace RouteLog

/-- The log without messages. -/
def empty : RouteLog := ⟨[]⟩

instance : Inhabited RouteLog := ⟨empty⟩

/-- Appends messages to those of a route, putting a new route in its place. -/
def insert (route : String) (messages : List String) :
    List (String × List String) → List (String × List String)
  | [] => [(route, messages)]
  | (r, ms) :: rest =>
    if r = route then (r, ms ++ messages) :: rest
    else if route < r then (route, messages) :: (r, ms) :: rest
    else (r, ms) :: insert route messages rest

/-- Files a message. -/
def add (l : RouteLog) (route message : String) : RouteLog := ⟨insert route [message] l.entries⟩

/-- Files all messages of another log after those of this one. -/
def merge (l other : RouteLog) : RouteLog :=
  ⟨other.entries.foldl (fun entries e => insert e.1 e.2 entries) l.entries⟩

/-- Whether the log has no routes. -/
def isEmpty (l : RouteLog) : Bool := l.entries.isEmpty

/-- The number of messages. -/
def size (l : RouteLog) : Nat := l.entries.foldr (fun e n => e.2.length + n) 0

/-- The messages of a route. -/
def messages (l : RouteLog) (route : String) : List String :=
  ((l.entries.find? (·.1 == route)).map (·.2)).getD []

/-- The routes that have messages. -/
def routes (l : RouteLog) : List String := l.entries.map (·.1)

/-- One line per message: the route, with a name for the root, and the message. -/
def toText (l : RouteLog) : String :=
  "\n".intercalate <| l.entries.flatMap fun (route, messages) =>
    messages.map fun message => (if route = "" then "<root>" else route) ++ ": " ++ message

end RouteLog

end SchemaQuery
