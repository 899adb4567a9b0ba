import SchemaQuery.Event
import SchemaQuery.Recorder

/-!
# Sinks

A sink is a named log. One that reacts to an event records further events itself, with another sink
in force while it does so; `Sink.receive` lists all that is logged for one event.
-/

namespace SchemaQuery

/-- A sink for events. -/
inductive Sink where
  | log (name : String)
  /-- Logs an event, and then records the events of its reaction under the sink `under`. -/
  | reacting (name : String) (reaction : Event → List Event) (under : Sink)

namespace Sink

/-- What a sink logs for an event: names of sinks with the events they log, in order. -/
def receive (e : Event) : Sink → List (String × Event)
  | .log name => [(name, e)]
  | .reacting name reaction under => (name, e) :: (reaction e).flatMap fun e => under.receive e

end Sink

/-- Where an event ends up. -/
inductive LogEntry where
  | sink (name : String) (e : Event)
  /-- The record that the default sink writes. -/
  | record (r : LogRecord)
deriving DecidableEq, Repr

/-- The entries of a delivery. -/
def Delivery.entries (d : Delivery Sink Event) : List LogEntry :=
  match d.sink with
  | none => [.record d.event.toRecord]
  | some sink => (sink.receive d.event).map fun (name, e) => .sink name e

end SchemaQuery
