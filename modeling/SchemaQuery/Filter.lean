import SchemaQuery.Context
import SchemaQuery.Event

/-!
# Filters

A filter collects the clauses of a query. Every call on it appends one clause or fails, and a call
that fails leaves the filter as it was. The mode of a call raises a flag, and the call takes both
flags down again before it does anything else, so none of them outlives it.
-/

namespace SchemaQuery

/-- How a clause is asked for: joined by `and`, joined by `or`, or negated. -/
inductive Mode where
  | and
  | or
  | not
deriving DecidableEq, Repr

/-- The clauses collected so far, and the flags for the next one. -/
structure Filter where
  context : Context
  pending : Flags
  clauses : List Clause

namespace Filter

/-- A filter without clauses. -/
def start (c : Context) : Filter := ⟨c, {}, []⟩

/-- The number of clauses. -/
def size (f : Filter) : Nat := f.clauses.length

/-- Raises the flag of a mode. -/
def mark (f : Filter) : Mode → Filter
  | .and => f
  | .or => { f with pending := { f.pending with connective := .or } }
  | .not => { f with pending := { f.pending with negated := true } }

/-- Takes the flags down; the filter after that, and what they were. -/
def takeFlags (f : Filter) : Filter × Flags := ({ f with pending := {} }, f.pending)

theorem context_takeFlags_mark (f : Filter) (mode : Mode) :
    (f.mark mode).takeFlags.1.context = f.context := by
  cases mode <;> rfl

end Filter

/-! ### Replies -/

/-- A call made inside a group: its error if it failed, the filter of the group after it, and the
calls inside it if it was a group itself. -/
structure Visit where
  error : Option CallError
  after : Filter
  inner : List Visit

/-- What comes of a call: its error if it failed, the state after it, the events it reported, and
the calls inside it if it was a group. -/
structure Reply (σ : Type) where
  error : Option CallError
  state : σ
  events : List Event
  inner : List Visit := []

namespace Reply

/-- Whether the call succeeded. -/
def succeeded {σ : Type} (r : Reply σ) : Bool := r.error.isNone

/-- The same reply about a larger state. -/
def map {σ τ : Type} (r : Reply σ) (f : σ → τ) : Reply τ := ⟨r.error, f r.state, r.events, r.inner⟩

end Reply

/-! ### Calls -/

namespace Filter

/-- Appends a clause. -/
def push (f : Filter) (c : Clause) : Reply Filter :=
  { error := none
    state := { f with clauses := f.clauses ++ [c] }
    events := [.added f.context.handle c] }

/-- Reports an error and leaves the filter alone. -/
def refuse (f : Filter) (e : CallError) : Reply Filter :=
  { error := some e, state := f, events := [.rejected f.context.handle .filter e.kind] }

/-- Appends the clause of a condition. -/
def condition (f : Filter) (mode : Mode) (c : Condition) : Reply Filter :=
  let (f, flags) := (f.mark mode).takeFlags
  match f.context.clause flags c with
  | .ok clause => f.push clause
  | .error e => f.refuse e

/-- Appends the clauses that `body` collects in a filter of its own as one group. If `body` fails,
so does the call. -/
def group (f : Filter) (mode : Mode) (body : Filter → Reply Filter) : Reply Filter :=
  let (f, flags) := (f.mark mode).takeFlags
  let inner := body (start f.context)
  let outcome :=
    match inner.error with
    | none => f.push (.group inner.state.clauses flags.connective flags.negated)
    | some e => f.refuse e
  { outcome with events := inner.events ++ outcome.events, inner := inner.inner }

end Filter

end SchemaQuery
