import EventChains.Fault
import EventChains.Trace.NameTable
import EventChains.Trace.Placement

/-!
# Traces

A trace holds events in two orders. In order of arrival an event's place is its id, which never
changes. In trace order events are sorted by time, and events of equal time stay in order of
arrival. A trace also names processes and threads, and numbers its flows by name.

`Trace.add` places one event. `Trace.addFlow` links two events by a pair of flow events: the start
directly after its source, the end just before its target in time. The main statement is
`arrivals_add`.
-/

namespace EventChains

/-- An event at its place in the trace order. -/
structure Entry where
  id : Nat
  event : Event

/-- A sequence of events over time, with names for processes and threads. -/
structure Trace where
  /-- The events in order of arrival. -/
  arrivals : Array Event := #[]
  /-- The events with their ids in trace order. -/
  order : Array Entry := #[]
  processNames : NameTable UInt64 := []
  threadNames : NameTable Scope := []
  /-- The names of the flows; a flow's number is the place of its name. -/
  flowNames : List String := []

namespace Trace

/-- The trace without events. -/
def empty : Trace := {}

instance : Inhabited Trace := ⟨empty⟩

variable (trace : Trace)

/-- The event with an id. -/
def get? (id : Nat) : Option Event :=
  trace.arrivals[id]?

/-- The number of events. -/
def size : Nat :=
  trace.arrivals.size

/-- The events in trace order. -/
def events : List Event :=
  trace.order.toList.map (·.event)

/-- The ids of the events in trace order. -/
def ids : List Nat :=
  trace.order.toList.map (·.id)

/-- Whether some event runs in a process. -/
def hasProcess (pid : UInt64) : Bool :=
  trace.arrivals.any (·.scope.pid == pid)

/-- The place of a new event in trace order: after all events that are not later. -/
def place (time : Timestamp) : Nat :=
  boundary (fun entry : Entry => decide (entry.event.time ≤ time)) trace.order

/-- Adds an event; its id is the number of events before. -/
def add (event : Event) : Trace :=
  { trace with
    arrivals := trace.arrivals.push event
    order := trace.order.insertIdx (trace.place event.time) ⟨trace.size, event⟩
      (boundary_le _ _) }

/-- The id that the next event gets. -/
def nextId : Nat :=
  trace.size

/-- Adds events one after the other. -/
def addAll (events : List Event) : Trace :=
  events.foldl add trace

/-- The trace of some events. -/
def ofEvents (events : List Event) : Trace :=
  empty.addAll events

/-- Names a process. -/
def nameProcess (pid : UInt64) (name : String) : Trace :=
  { trace with processNames := trace.processNames.set pid name }

/-- Names a thread. -/
def nameThread (scope : Scope) (name : String) : Trace :=
  { trace with threadNames := trace.threadNames.set scope name }

/-- The number of the flow with a name. A new name gets the next number. -/
def flowNumber (name : String) : UInt64 :=
  UInt64.ofNat (trace.flowNames.idxOf name)

/-- The trace with a number for a flow. -/
def registerFlow (name : String) : Trace :=
  if name ∈ trace.flowNames then trace
  else { trace with flowNames := trace.flowNames ++ [name] }

/-- How long before its target a flow ends: a nanosecond. -/
def flowLead : Float := 1e-6

/-- The time at which a flow to an event at `target` ends; never below zero. -/
def flowEndTime (target : Timestamp) : Float :=
  let time := target.val - flowLead
  if time < 0 then 0 else time

/-- The two events of a flow. -/
def flowEvents (name : String) (source target : Event) (number : UInt64) :
    Except EventFault (Event × Event) := do
  let start ← Event.make name .flowBegin source.time.val
  let finish ← Event.make name .flowEnd (flowEndTime target.time)
  .ok ((start.withFlow number).inScope source.scope, (finish.withFlow number).inScope target.scope)

/-- Links the events `source` and `target` by a flow. Gives the ids of its two events, or what is
wrong. The flow has its number from the moment that both events are known. -/
def addFlow (name : String) (source target : Nat) : Trace × Except EventFault (Nat × Nat) :=
  match trace.get? source, trace.get? target with
  | none, _ => (trace, .error .unknownSource)
  | _, none => (trace, .error .unknownTarget)
  | some source, some target =>
      let registered := trace.registerFlow name
      match flowEvents name source target (trace.flowNumber name) with
      | .error fault => (registered, .error fault)
      | .ok (start, finish) =>
          ((registered.add start).add finish, .ok (trace.size, trace.size + 1))

/-- An added event arrives last. -/
@[simp]
theorem arrivals_add (event : Event) : (trace.add event).arrivals = trace.arrivals.push event :=
  rfl

end Trace

end EventChains
