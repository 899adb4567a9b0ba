import SchemaQuery.Query

/-!
# Runs

Calls made one after another. A call that fails does not end a run: the next one finds the state as
it was before the failure.
-/

namespace SchemaQuery

/-- The filter after some calls. -/
def Filter.run (f : Filter) (calls : List FilterCall) : Filter :=
  calls.foldl (fun f call => (f.apply call).state) f

namespace Query

/-- The query after some calls. -/
def run (q : Query) (calls : List QueryCall) : Query :=
  calls.foldl (fun q call => (q.apply call).state) q

theorem run_cons (q : Query) (call : QueryCall) (calls : List QueryCall) :
    q.run (call :: calls) = (q.apply call).state.run calls := rfl

/-- The replies to some calls. -/
def replies (q : Query) : List QueryCall → List (Reply Query)
  | [] => []
  | call :: calls =>
    let r := q.apply call
    r :: r.state.replies calls

/-- The events of some calls, in order. -/
def events (q : Query) (calls : List QueryCall) : List Event :=
  (q.replies calls).flatMap (·.events)

end Query

end SchemaQuery
