import EventChains.Matching.Numbering
import EventChains.Trace.Basic

/-!
# The course of a trace

The search sees a trace as its course: the events in trace order, each with the number of its kind.
Two events are of the same kind when they agree in name and phase, and two flow events belong to the
same flow when they agree in name and flow number.
-/

namespace EventChains

/-- What tells the kinds of events apart. -/
abbrev Matching.Kind := String × Phase

/-- What tells flows apart. -/
structure Matching.FlowKey where
  name : String
  flow : Option UInt64
  deriving DecidableEq, Hashable, Inhabited, Repr

namespace Matching.FlowKey

/-- Flows are ordered by name, then by number; a flow without a number comes first. -/
instance : LT FlowKey :=
  ⟨fun a b => a.name < b.name ∨ (a.name = b.name ∧ Option.lt (· < ·) a.flow b.flow)⟩

instance (a b : FlowKey) : Decidable (a < b) :=
  inferInstanceAs
    (Decidable (a.name < b.name ∨ (a.name = b.name ∧ Option.lt (· < ·) a.flow b.flow)))

end Matching.FlowKey

open Matching

/-- Name and phase, which tell the kinds of events apart. -/
def Event.kind (event : Event) : Kind :=
  (event.name, event.phase)

/-- Name and flow number, which tell flows apart. -/
def Event.flowKey (event : Event) : FlowKey :=
  ⟨event.name, event.flow⟩

namespace Matching

/-- An event as the search sees it. -/
structure Slot where
  kind : UInt32
  event : Event

/-- The slots of a trace, with the numbers of its kinds. -/
structure Course where
  slots : Array Slot := #[]
  kinds : Numbering Kind := {}

namespace Course

/-- The course with one more event. -/
def add (course : Course) (event : Event) : Course :=
  let (kind, kinds) := course.kinds.assign event.kind
  { slots := course.slots.push ⟨kind, event⟩, kinds }

/-- The course of a trace. -/
def ofTrace (trace : Trace) : Course :=
  trace.events.foldl add {}

end Course

end Matching

end EventChains
