import SchemaQuery.Filter

/-!
# Blocks

What a caller does with the filter of a group, as data: a sequence of calls, each of which may end
the block if it fails, and an end, which may be an error of the caller's own. `Block.run` carries a
block out, and `Filter.apply` a single call.
-/

namespace SchemaQuery

/-- What follows from the failure of a call inside a block. -/
inductive OnError where
  /-- The block fails with the same error. -/
  | stop
  /-- The block goes on. -/
  | ignore
deriving DecidableEq, Repr

/-- The calls of a block. -/
inductive Block where
  /-- The block ends and succeeds. -/
  | done
  /-- The block ends and fails. -/
  | fail (e : CallError)
  | condition (mode : Mode) (c : Condition) (onError : OnError) (next : Block)
  | group (mode : Mode) (body : Block) (onError : OnError) (next : Block)

/-- A call on a filter. -/
inductive FilterCall where
  | condition (mode : Mode) (c : Condition)
  | group (mode : Mode) (body : Block)

namespace Block

/-- The block that starts with a call. -/
def cons (call : FilterCall) (onError : OnError) (next : Block) : Block :=
  match call with
  | .condition mode c => .condition mode c onError next
  | .group mode body => .group mode body onError next

/-- The block that makes some calls, treats all their errors alike, and then ends. -/
def ofCalls (onError : OnError) (ending : Option CallError) : List FilterCall → Block
  | [] =>
    match ending with
    | none => .done
    | some e => .fail e
  | call :: calls => .cons call onError (ofCalls onError ending calls)

end Block

/-- Goes on after a call of a block, unless the call failed and errors are not ignored. -/
def Reply.andThen (r : Reply Filter) (onError : OnError) (next : Filter → Reply Filter) :
    Reply Filter :=
  let visit : Visit := ⟨r.error, r.state, r.inner⟩
  match r.error, onError with
  | some e, .stop => ⟨some e, r.state, r.events, [visit]⟩
  | _, _ =>
    let rest := next r.state
    ⟨rest.error, rest.state, r.events ++ rest.events, visit :: rest.inner⟩

/-- Carries out a block on a filter. -/
def Block.run (f : Filter) : Block → Reply Filter
  | .done => ⟨none, f, [], []⟩
  | .fail e => ⟨some e, f, [], []⟩
  | .condition mode c onError next => (f.condition mode c).andThen onError (fun f => next.run f)
  | .group mode body onError next =>
    (f.group mode fun f => body.run f).andThen onError (fun f => next.run f)

/-- Carries out a call on a filter. -/
def Filter.apply (f : Filter) : FilterCall → Reply Filter
  | .condition mode c => f.condition mode c
  | .group mode body => f.group mode fun f => body.run f

end SchemaQuery
