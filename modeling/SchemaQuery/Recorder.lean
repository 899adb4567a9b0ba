/-!
# Recorders

Events go to the sink that is in force when they are recorded. A recorder is a computation that has
a state, records events, and may be aborted; what it does is explicit: it is given the sink in
force, or none for the default one, and returns the sink in force afterwards and the deliveries it
made. `Recorder.within` puts a sink in force for a part of a computation and puts the earlier one
back when that part ends, also when it is aborted.
-/

namespace SchemaQuery

/-- An event and the sink that it went to; none is the default sink. -/
structure Delivery (S E : Type) where
  sink : Option S
  event : E
deriving DecidableEq, Repr

/-- What comes of a computation: its value unless it was aborted, the state and the sink in force
after it, and what it delivered, in order. -/
structure Recorded (S E σ α : Type) where
  value : Option α
  state : σ
  current : Option S
  deliveries : List (Delivery S E)

/-- A computation over a state that records events. -/
def Recorder (S E σ α : Type) : Type := σ → Option S → Recorded S E σ α

namespace Recorder

variable {S E σ α β : Type}

/-- Does nothing. -/
def pure (a : α) : Recorder S E σ α := fun s k => ⟨some a, s, k, []⟩

/-- One computation after another; nothing follows one that was aborted. -/
def bind (m : Recorder S E σ α) (f : α → Recorder S E σ β) : Recorder S E σ β := fun s k =>
  let r := m s k
  match r.value with
  | none => ⟨none, r.state, r.current, r.deliveries⟩
  | some a =>
    let t := f a r.state r.current
    ⟨t.value, t.state, t.current, r.deliveries ++ t.deliveries⟩

instance : Monad (Recorder S E σ) where
  pure := pure
  bind := bind

/-- The state. -/
def get : Recorder S E σ σ := fun s k => ⟨some s, s, k, []⟩

/-- Replaces the state. -/
def set (s : σ) : Recorder S E σ Unit := fun _ k => ⟨some (), s, k, []⟩

/-- Records an event: the sink in force gets it. -/
def record (e : E) : Recorder S E σ Unit := fun s k => ⟨some (), s, k, [⟨k, e⟩]⟩

/-- Records events in order. -/
def recordAll : List E → Recorder S E σ Unit
  | [] => pure ()
  | e :: es => bind (record e) fun _ => recordAll es

/-- Aborts the computation. -/
def abort : Recorder S E σ α := fun s k => ⟨none, s, k, []⟩

/-- Stops an abort: the value, if there is one. -/
def guarded (m : Recorder S E σ α) : Recorder S E σ (Option α) := fun s k =>
  let r := m s k
  ⟨some r.value, r.state, r.current, r.deliveries⟩

/-- Runs a computation with a sink in force, and then puts the sink before it back. -/
def within (sink : S) (m : Recorder S E σ α) : Recorder S E σ α := fun s k =>
  let r := m s (some sink)
  ⟨r.value, r.state, k, r.deliveries⟩

/-- The value of a computation together with its deliveries. -/
def listen (m : Recorder S E σ α) : Recorder S E σ (α × List (Delivery S E)) := fun s k =>
  let r := m s k
  ⟨r.value.map (·, r.deliveries), r.state, r.current, r.deliveries⟩

end Recorder

/-! ### Scripts -/

/-- A computation that does nothing but record events, as data. -/
inductive Script (S E : Type) where
  | skip
  | record (e : E)
  | seq (first second : Script S E)
  | within (sink : S) (body : Script S E)
  | abort
  | guarded (body : Script S E)

/-- The computation of a script. -/
def Script.run {S E : Type} : Script S E → Recorder S E Unit Unit
  | .skip => .pure ()
  | .record e => .record e
  | .seq first second => first.run.bind fun _ => second.run
  | .within sink body => .within sink body.run
  | .abort => .abort
  | .guarded body => body.run.guarded.bind fun _ => .pure ()

end SchemaQuery
