import EventChains.Proofs.Matching.Coding
import EventChains.Proofs.Matching.Walk
import Mathlib.Data.Finset.Dedup
import Mathlib.Data.Finset.Card
import Mathlib.Data.List.Forall2

/-!
# The course of a trace stands for its events

`Course.ofTrace_codes` says that the slots of a course stand one by one for the events of the trace.
A state of the search shows the view of a walk when its sets list the sets of the view; then it sees
the same events (`Shows.sees_iff`), finds the same next event (`Shows.nextInView?_eq`), and taking
an event keeps the two together (`Shows.take`). All this holds whatever numbers the kinds have. That
the numbers tell the kinds apart takes a trace with no more kinds than numbers (`Trace.KindsFit`).
-/

namespace EventChains

open Matching

namespace Matching

namespace Course

/-- A slot stands for an event: it has the event, and the number of its kind. -/
structure Stands (course : Course) (slot : Slot) (event : Event) : Prop where
  kind : course.kinds.get? event.kind = some slot.kind
  event_eq : slot.event = event

/-- The slots of a course stand for some events, and the kinds of these events are numbered. -/
structure Codes (course : Course) (events : List Event) : Prop where
  kinds : ∃ values, course.kinds.Valid values ∧ ∀ kind, kind ∈ values ↔ kind ∈ events.map Event.kind
  slots_stand : List.Forall₂ course.Stands course.slots.toList events

theorem codes_empty : Codes {} [] where
  kinds := ⟨[], Numbering.valid_empty, by simp⟩
  slots_stand := List.Forall₂.nil

theorem slots_add (course : Course) (event : Event) :
    (course.add event).slots = course.slots.push ⟨(course.kinds.assign event.kind).1, event⟩ :=
  rfl

theorem kinds_add (course : Course) (event : Event) :
    (course.add event).kinds = (course.kinds.assign event.kind).2 :=
  rfl

/-- A slot stands for its event also when further events are added. -/
theorem Stands.add {course : Course} {slot : Slot} {event : Event}
    (stands : course.Stands slot event) (next : Event) : (course.add next).Stands slot event where
  kind := by
    rw [kinds_add]
    exact Numbering.get?_assign_of_get? _ stands.kind
  event_eq := stands.event_eq

/-- An event of a kind has the number of the kind. -/
theorem Stands.kind_eq {course : Course} {slot : Slot} {event : Event} {kind : Kind} {n : UInt32}
    (stands : course.Stands slot event) (hkind : course.kinds.get? kind = some n)
    (h : event.kind = kind) : slot.kind = n := by
  subst h
  exact Option.some.inj (stands.kind.symm.trans hkind)

theorem Codes.add {course : Course} {events : List Event} (codes : course.Codes events)
    (event : Event) : (course.add event).Codes (events ++ [event]) where
  kinds := by
    obtain ⟨values, valid, hvalues⟩ := codes.kinds
    obtain ⟨more, hmore, hmem⟩ := valid.assign event.kind
    exact ⟨more, hmore, fun kind => by simp [hmem, hvalues, or_comm]⟩
  slots_stand := by
    rw [slots_add, Array.toList_push]
    exact List.rel_append (codes.slots_stand.imp fun _ _ stands => stands.add event)
      (.cons ⟨course.kinds.get?_assign_self event.kind, rfl⟩ .nil)

/-- Adding events one after the other keeps slots and events together. -/
theorem Codes.foldl_add {course : Course} {events : List Event} (codes : course.Codes events)
    (later : List Event) : (later.foldl Course.add course).Codes (events ++ later) := by
  induction later generalizing course events with
  | nil => simpa using codes
  | cons event rest ih => simpa using ih (codes.add event)

/-- The course of a trace stands for the events of the trace. -/
theorem ofTrace_codes (trace : Trace) : (ofTrace trace).Codes trace.events :=
  codes_empty.foldl_add trace.events

/-- A course has a slot for each event. -/
theorem size_slots_ofTrace (trace : Trace) :
    (ofTrace trace).slots.size = trace.placed.length := by
  simpa [Trace.placed] using (ofTrace_codes trace).slots_stand.length_eq

/-- The slot at a position stands for the event at that position. -/
theorem slot_stands {trace : Trace} {position : Nat}
    (h : position < (ofTrace trace).slots.size) :
    ∃ event, (ofTrace trace).Stands (ofTrace trace).slots[position] event ∧
      trace.placed.drop position = (event, position) :: trace.placed.drop (position + 1) := by
  have hplaced : position < trace.placed.length := size_slots_ofTrace trace ▸ h
  have hevents : position < trace.events.length := by simpa [Trace.placed] using hplaced
  have hstands := (ofTrace_codes trace).slots_stand.get (by simpa using h) hevents
  refine ⟨trace.events[position], by simpa using hstands, ?_⟩
  rw [List.drop_eq_getElem_cons hplaced]
  simp [Trace.placed]

/-- A kind has a number exactly if it occurs in the trace. -/
theorem isSome_get?_kinds_iff {trace : Trace} {kind : Kind} :
    ((ofTrace trace).kinds.get? kind).isSome ↔ ∃ event ∈ trace.events, event.kind = kind := by
  obtain ⟨values, valid, hvalues⟩ := (ofTrace_codes trace).kinds
  rw [valid.isSome_get?_iff, hvalues, List.mem_map]

end Course

end Matching

namespace Trace

variable {trace other : Trace}

/-- A trace has no more kinds of events than there are numbers of 32 bits for them. -/
def KindsFit (trace : Trace) : Prop :=
  (trace.events.map Event.kind).toFinset.card ≤ UInt32.size

/-- Then the numbers tell the kinds apart. -/
theorem KindsFit.tellsApart (fit : trace.KindsFit) : (Course.ofTrace trace).kinds.TellsApart := by
  obtain ⟨values, valid, hvalues⟩ := (Course.ofTrace_codes trace).kinds
  have heq : values.toFinset = (trace.events.map Event.kind).toFinset := by
    ext kind
    rw [List.mem_toFinset, hvalues, List.mem_toFinset]
  refine valid.tellsApart ?_
  rw [← List.toFinset_card_of_nodup valid.nodup, heq]
  exact fit

/-- The kinds of no more events than numbers fit. -/
theorem kindsFit_of_length_le (h : trace.events.length ≤ UInt32.size) : trace.KindsFit :=
  (List.toFinset_card_le _).trans (by rwa [List.length_map])

/-- The kinds of some of the events fit if those of all events do. -/
theorem KindsFit.of_subset (fit : trace.KindsFit) (h : other.events ⊆ trace.events) :
    other.KindsFit := by
  refine (Finset.card_le_card fun kind hkind => ?_).trans fit
  rw [List.mem_toFinset] at hkind ⊢
  exact List.map_subset Event.kind h hkind

end Trace

namespace Matching

/-- A state of the search has in view what a walk has in view. -/
structure Shows (state : State) (view : View) : Prop where
  scopes : state.scopes.Lists (view.scopes : Set Scope)
  flows : state.flows.Lists (view.flows : Set FlowKey)

namespace Shows

variable {course : Course} {state : State} {view : View} {slot : Slot} {event : Event}

/-- The first event puts its own scope in view. -/
theorem start (position : Nat) (stands : course.Stands slot event) :
    Shows (State.start position slot) (View.start event) where
  scopes := ⟨SortedSet.sorted_singleton _, by simp [State.start, View.start, stands.event_eq]⟩
  flows := ⟨SortedSet.sorted_nil, by simp [State.start, View.start]⟩

/-- A state sees a slot exactly when the walk sees the event. -/
theorem sees_iff (shown : Shows state view) (stands : course.Stands slot event) :
    state.sees slot = true ↔ view.Sees event := by
  rw [← stands.event_eq, State.sees, Bool.or_eq_true, Bool.and_eq_true, beq_iff_eq,
    shown.scopes.has_iff, shown.flows.has_iff]
  rfl

/-- Taking an event keeps a state and a walk together. -/
theorem take (shown : Shows state view) (position : Nat) (stands : course.Stands slot event) :
    Shows (state.take position slot) (view.after event) := by
  rw [← stands.event_eq]
  unfold State.take State.scopesAfter State.flowsAfter View.after
  cases slot.event.phase with
  | spanBegin | spanEnd | instant => exact ⟨shown.scopes, shown.flows⟩
  | flowBegin =>
      refine ⟨shown.scopes, ?_⟩
      rw [Finset.coe_insert]
      exact shown.flows.insert slot.event.flowKey
  | flowEnd =>
      constructor
      · rw [Finset.coe_insert]
        exact shown.scopes.insert slot.event.scope
      · rw [Finset.coe_erase]
        exact shown.flows.erase slot.event.flowKey

end Shows

/-- The search finds the next event in view, or none where the walk ends. -/
theorem Shows.nextInView?_eq {state : State} {view : View} (shown : Shows state view)
    (trace : Trace) (position : Nat) :
    match view.next? (trace.placed.drop position) with
    | none => state.nextInView? (Course.ofTrace trace).slots position = none
    | some ((event, found), later) =>
        later = trace.placed.drop (found + 1) ∧ ∃ slot, (Course.ofTrace trace).Stands slot event ∧
          state.nextInView? (Course.ofTrace trace).slots position = some (found, slot) := by
  fun_induction State.nextInView? state (Course.ofTrace trace).slots position with
  | case1 position hlt hsees =>
      obtain ⟨event, stands, hdrop⟩ := Course.slot_stands hlt
      rw [hdrop, View.next?, if_pos ((shown.sees_iff stands).1 hsees)]
      exact ⟨rfl, _, stands, rfl⟩
  | case2 position hlt hsees ih =>
      obtain ⟨event, stands, hdrop⟩ := Course.slot_stands hlt
      rw [hdrop, View.next?, if_neg (fun h => hsees ((shown.sees_iff stands).2 h))]
      exact ih
  | case3 position hge =>
      rw [List.drop_eq_nil_of_le (by rw [← Course.size_slots_ofTrace]; omega)]
      rfl

end Matching

end EventChains
