import EventChains.Matching.Course
import Mathlib.Data.Finset.Erase
import Mathlib.Data.Finset.Insert

/-!
# Walks

A walk goes through a trace from event to event. It sees the events of its scopes and the ends of
the flows that it has entered and not left, and an end of a flow brings its scope into view. What a
walk sees depends on where it starts and on nothing else: `View.walk` lists it.
-/

namespace EventChains

open Matching

namespace Matching

/-- An event with its position in the trace order. -/
abbrev Placed := Event × Nat

/-- What is in view of a walk. -/
structure View where
  scopes : Finset Scope
  /-- The flows entered and not left. -/
  flows : Finset FlowKey

namespace View

variable (view : View)

/-- What is in view after the first event. -/
def start (event : Event) : View where
  scopes := {event.scope}
  flows := ∅

/-- Whether an event is in view. -/
def Sees (event : Event) : Prop :=
  event.scope ∈ view.scopes ∨ (event.phase = .flowEnd ∧ event.flowKey ∈ view.flows)

instance (event : Event) : Decidable (view.Sees event) :=
  inferInstanceAs (Decidable (_ ∨ _))

/-- What is in view after an event in view. -/
def after (event : Event) : View :=
  match event.phase with
  | .flowBegin => { view with flows := insert event.flowKey view.flows }
  | .flowEnd =>
      { scopes := insert event.scope view.scopes, flows := view.flows.erase event.flowKey }
  | _ => view

/-- The next event in view, and the events that come after it. -/
def next? : List Placed → Option (Placed × List Placed)
  | [] => none
  | placed :: rest => if view.Sees placed.1 then some (placed, rest) else next? rest

/-- All events that come into view one after the other. -/
def walk (view : View) : List Placed → List Placed
  | [] => []
  | placed :: rest =>
      if view.Sees placed.1 then placed :: (view.after placed.1).walk rest else view.walk rest

/-- Fewer events come after the next event in view. -/
theorem length_lt_of_next? {rest later : List Placed} {placed : Placed}
    (h : view.next? rest = some (placed, later)) : later.length < rest.length := by
  induction rest with
  | nil => contradiction
  | cons head tail ih =>
      rw [next?] at h
      split at h
      · cases h
        exact Nat.lt_succ_self _
      · exact Nat.lt_succ_of_lt (ih h)

/-- A walk ends where no further event is in view. -/
theorem walk_of_next?_eq_none {view : View} {rest : List Placed} (h : view.next? rest = none) :
    view.walk rest = [] := by
  induction rest with
  | nil => rfl
  | cons head tail ih =>
      rw [next?] at h
      split at h
      · contradiction
      · rename_i hsees
        rw [walk, if_neg hsees]
        exact ih h

/-- A walk goes to the next event in view, and on from there. -/
theorem walk_of_next?_eq_some {view : View} {rest later : List Placed} {placed : Placed}
    (h : view.next? rest = some (placed, later)) :
    view.walk rest = placed :: (view.after placed.1).walk later := by
  induction rest with
  | nil => contradiction
  | cons head tail ih =>
      rw [next?] at h
      split at h
      · rename_i hsees
        cases h
        rw [walk, if_pos hsees]
      · rename_i hsees
        rw [walk, if_neg hsees]
        exact ih h

/-- A walk keeps the order of the events. -/
theorem walk_sublist (view : View) (rest : List Placed) : (view.walk rest).Sublist rest := by
  induction rest generalizing view with
  | nil => exact List.Sublist.slnil
  | cons head tail ih =>
      rw [walk]
      split
      · exact (ih _).cons_cons head
      · exact (ih view).cons head

end View

end Matching

namespace Trace

variable (trace : Trace)

/-- The events in trace order with their positions. -/
def placed : List Placed :=
  trace.events.zipIdx

/-- The walk that starts at a position. -/
def walk (position : Nat) : List Placed :=
  match trace.placed.drop position with
  | [] => []
  | start :: later => start :: (View.start start.1).walk later

/-- The walk from a position of the trace starts with the event there. -/
theorem walk_of_lt {position : Nat} (h : position < trace.placed.length) :
    ∃ event before later, trace.placed = before ++ (event, position) :: later ∧
      trace.walk position = (event, position) :: (View.start event).walk later := by
  have hplaced : trace.placed[position] = (trace.placed[position].1, position) := by
    simp [placed]
  have hdrop := List.drop_eq_getElem_cons h
  rw [hplaced] at hdrop
  refine ⟨trace.placed[position].1, trace.placed.take position,
    trace.placed.drop (position + 1), ?_, ?_⟩
  · rw [← hdrop, List.take_append_drop]
  · rw [walk, hdrop]

/-- There is no walk from a position after the trace. -/
theorem walk_of_le {position : Nat} (h : trace.placed.length ≤ position) :
    trace.walk position = [] := by
  rw [walk, List.drop_eq_nil_of_le h]

/-- The walk from a position on is a part of the trace. -/
theorem walk_sublist (position : Nat) : (trace.walk position).Sublist trace.placed := by
  unfold walk
  split
  · exact List.nil_sublist _
  · rename_i start later hdrop
    refine List.Sublist.trans ?_ (List.drop_sublist position trace.placed)
    rw [hdrop]
    exact ((View.start start.1).walk_sublist later).cons_cons start

/-- Every position is one of the trace. -/
theorem position_lt {placed : Placed} (h : placed ∈ trace.placed) :
    placed.2 < trace.placed.length := by
  rw [Trace.placed, List.length_zipIdx]
  exact List.snd_lt_of_mem_zipIdx h

/-- Positions increase along the trace. -/
theorem placed_increasing : trace.placed.Pairwise fun a b => a.2 < b.2 := by
  rw [placed, List.pairwise_iff_getElem]
  intro i j hi hj hij
  simpa using hij

/-- Positions increase along a walk. -/
theorem walk_increasing (position : Nat) :
    (trace.walk position).Pairwise fun a b => a.2 < b.2 :=
  trace.placed_increasing.sublist (trace.walk_sublist position)

end Trace

end EventChains
