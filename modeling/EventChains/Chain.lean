import EventChains.Trace.Basic

/-!
# Chains

A chain is one occurrence of a pattern in a trace: a label, the ids of its events in trace order,
and the times of its first and last event.
-/

namespace EventChains

/-- One occurrence of a pattern. -/
structure Chain where
  label : String
  events : List Nat
  start : Timestamp
  finish : Timestamp

namespace Chain

/-- The chain of some entries of a trace. -/
def ofEntries (label : String) (entries : List Entry) : Chain where
  label := label
  events := entries.map (·.id)
  start := (entries.head?.map (·.event.time)).getD .zero
  finish := (entries.getLast?.map (·.event.time)).getD .zero

variable (chain : Chain)

/-- The id of the first event. -/
def first? : Option Nat :=
  chain.events.head?

/-- The id of the last event. -/
def last? : Option Nat :=
  chain.events.getLast?

/-- The first and the last event, which tell the chains of a trace apart. -/
def span? : Option (Nat × Nat) := do
  return (← chain.first?, ← chain.last?)

/-- The number of events. -/
def size : Nat :=
  chain.events.length

/-- The time from start to finish, in milliseconds. -/
def duration : Float :=
  chain.start.span chain.finish

/-- The chain as the begin and the end of a duration with its label, in scope `0/0`. -/
def asSpan : Except EventFault (Event × Event) := do
  let opening ← Event.make chain.label .spanBegin chain.start.val
  let closing ← Event.make chain.label .spanEnd chain.finish.val
  .ok (opening, closing)

end Chain

end EventChains
