import EventChains.Proofs.Trace.Built

/-!
# Parts of a trace

An event that is not earlier than any other one goes to the end of the trace order
(`toList_order_add_of_last`), so events that are added in an order of time stay in this order
(`toList_order_ofEvents`). The part of a trace with some of its entries is the trace of their
events, and its trace order is that of the whole trace.
-/

namespace EventChains.Trace

variable {trace : Trace}

/-! ## Adding in an order of time -/

/-- The place of a time that no event is later than is the end. -/
theorem place_of_last (ordered : InTime trace.order.toList) {time : Timestamp}
    (hlast : ∀ event ∈ trace.events, event.time ≤ time) :
    trace.place time = trace.order.size := by
  refine Nat.le_antisymm (trace.place_le time) (Nat.le_of_not_lt fun hlt => ?_)
  have hle := hlast trace.order[trace.place time].event
    (List.mem_map_of_mem (Array.mem_toList_iff.2 (Array.getElem_mem hlt)))
  exact Nat.lt_irrefl _ ((lt_place_iff ordered time hlt).2 hle)

/-- An event that no event is later than goes to the end of the trace order. -/
theorem toList_order_add_of_last (ordered : InTime trace.order.toList) {event : Event}
    (hlast : ∀ earlier ∈ trace.events, earlier.time ≤ event.time) :
    (trace.add event).order.toList = trace.order.toList ++ [⟨trace.size, event⟩] := by
  rw [toList_order_add, place_of_last ordered hlast, ← Array.length_toList,
    List.insertIdx_length_self]

/-- Events in an order of time. -/
def EventsInTime (events : List Event) : Prop :=
  events.Pairwise fun earlier later => earlier.time ≤ later.time

theorem eventsInTime_map {entries : List Entry} :
    EventsInTime (entries.map (·.event)) ↔ InTime entries :=
  List.pairwise_map

/-- Events that are added in an order of time go to the end of the trace order one after the
other. -/
theorem toList_order_addAll {events : List Event}
    (inTime : EventsInTime (trace.order.toList.map (·.event) ++ events)) :
    (trace.addAll events).order.toList =
      trace.order.toList ++ (events.zipIdx trace.size).map fun (event, id) => ⟨id, event⟩ := by
  induction events generalizing trace with
  | nil => exact (List.append_nil _).symm
  | cons event rest ih =>
      obtain ⟨hbefore, _, hcross⟩ := List.pairwise_append.1 inTime
      have hadd : (trace.add event).order.toList = trace.order.toList ++ [⟨trace.size, event⟩] :=
        toList_order_add_of_last (eventsInTime_map.1 hbefore) fun earlier hearlier =>
          hcross earlier hearlier event List.mem_cons_self
      have hsize : (trace.add event).size = trace.size + 1 := by simp [size]
      have hrest : EventsInTime ((trace.add event).order.toList.map (·.event) ++ rest) := by
        rw [hadd, List.map_append, List.append_assoc]
        exact inTime
      show ((trace.add event).addAll rest).order.toList = _
      rw [ih hrest, hadd, hsize, List.append_assoc, List.zipIdx_cons, List.map_cons]
      rfl

/-- The trace of some events in an order of time has them in this order. -/
theorem toList_order_ofEvents {events : List Event} (inTime : EventsInTime events) :
    (ofEvents events).order.toList = events.zipIdx.map fun (event, id) => ⟨id, event⟩ := by
  have hempty : EventsInTime (empty.order.toList.map (·.event) ++ events) := inTime
  exact toList_order_addAll hempty

theorem events_ofEvents {events : List Event} (inTime : EventsInTime events) :
    (ofEvents events).events = events := by
  rw [Trace.events, toList_order_ofEvents inTime, List.map_map]
  exact List.zipIdx_map_fst 0 events

/-! ## Parts -/

variable (trace) (keep : Entry → Bool)

/-- Some entries of a trace in trace order. -/
def entriesWhere : List Entry :=
  trace.order.toList.filter keep

/-- The trace of some of the events, added in trace order. -/
def part : Trace :=
  ofEvents ((trace.entriesWhere keep).map (·.event))

/-- The ids of some of the events in trace order. -/
def idsWhere : List Nat :=
  (trace.entriesWhere keep).map (·.id)

variable {trace keep}

/-- The trace order of a part is that of the whole trace. -/
theorem toList_order_part (ordered : InTime trace.order.toList) :
    (trace.part keep).order.toList =
      ((trace.entriesWhere keep).map (·.event)).zipIdx.map fun (event, id) => ⟨id, event⟩ :=
  toList_order_ofEvents (eventsInTime_map.2 (ordered.sublist List.filter_sublist))

/-- The events of a part in trace order. -/
theorem events_part (ordered : InTime trace.order.toList) :
    (trace.part keep).events = (trace.entriesWhere keep).map (·.event) :=
  events_ofEvents (eventsInTime_map.2 (ordered.sublist List.filter_sublist))

/-- The entry at a position of a part has the position as its id. -/
theorem getElem?_order_part (ordered : InTime trace.order.toList) (position : Nat) :
    (trace.part keep).order[position]? =
      (trace.entriesWhere keep)[position]?.map fun entry => ⟨position, entry.event⟩ := by
  rw [← Array.getElem?_toList, toList_order_part ordered, List.getElem?_map, List.getElem?_zipIdx,
    List.getElem?_map, Option.map_map, Option.map_map, Nat.zero_add]
  rfl

end EventChains.Trace
