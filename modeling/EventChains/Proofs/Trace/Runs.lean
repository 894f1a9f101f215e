import EventChains.Proofs.Trace.Arrivals
import Mathlib.Data.List.Basic

/-!
# Runs of calls

`Trace.run` is the trace that calls of the operations leave, and `insertions` lists the events that
they have inserted on the way. No call takes an event away or moves one past another: `Grows` says
what stays of a trace, for one call (`grows_perform`) and for a run (`grows_performAll`). A call
answers with the next ids (`answered_eq`), and the events are found under them
(`map_get?_answered`).
-/

namespace EventChains.Trace

/-- A call of an operation on a trace. -/
inductive Call where
  | add (event : Event)
  | addAll (events : List Event)
  | addFlow (name : String) (source target : Nat)
  | nameProcess (pid : UInt64) (name : String)
  | nameThread (scope : Scope) (name : String)

/-- The trace after a call. -/
def perform (trace : Trace) : Call → Trace
  | .add event => trace.add event
  | .addAll events => trace.addAll events
  | .addFlow name source target => (trace.addFlow name source target).1
  | .nameProcess pid name => trace.nameProcess pid name
  | .nameThread scope name => trace.nameThread scope name

/-- The events that a call inserts: those that it is given, or those that it answers with. -/
def inserted (trace : Trace) : Call → List Event
  | .add event => [event]
  | .addAll events => events
  | .addFlow name source target =>
      match trace.addFlow name source target with
      | (later, .ok (start, finish)) => [start, finish].filterMap later.get?
      | (_, .error _) => []
  | .nameProcess _ _ => []
  | .nameThread _ _ => []

/-- The ids of events that are added one after the other. -/
def idsOfAll : Trace → List Event → List Nat
  | _, [] => []
  | trace, event :: rest => trace.nextId :: idsOfAll (trace.add event) rest

/-- The ids that a call answers with. -/
def answered (trace : Trace) : Call → List Nat
  | .add _ => [trace.nextId]
  | .addAll events => trace.idsOfAll events
  | .addFlow name source target =>
      match (trace.addFlow name source target).2 with
      | .ok (start, finish) => [start, finish]
      | .error _ => []
  | .nameProcess _ _ => []
  | .nameThread _ _ => []

/-- The trace after some calls. -/
def performAll (trace : Trace) (calls : List Call) : Trace :=
  calls.foldl perform trace

/-- The events that some calls insert, in order. -/
def insertedAll : Trace → List Call → List Event
  | _, [] => []
  | trace, call :: rest => trace.inserted call ++ insertedAll (trace.perform call) rest

/-- The trace that some calls make from the empty one. -/
def run (calls : List Call) : Trace :=
  empty.performAll calls

/-- The events that some calls insert into the empty trace, in order. -/
def insertions (calls : List Call) : List Event :=
  empty.insertedAll calls

theorem run_append (calls more : List Call) :
    run (calls ++ more) = (run calls).performAll more := by
  simp [run, performAll]

/-- Calls build traces. -/
theorem Built.perform {trace : Trace} (built : trace.Built) (call : Call) :
    (trace.perform call).Built := by
  cases call with
  | add event => exact built.add event
  | addAll events => exact built.addAll events
  | addFlow name source target => exact built.addFlow name source target
  | nameProcess pid name => exact built.nameProcess pid name
  | nameThread scope name => exact built.nameThread scope name

theorem Built.performAll {trace : Trace} (built : trace.Built) (calls : List Call) :
    (trace.performAll calls).Built := by
  induction calls generalizing trace with
  | nil => exact built
  | cons call rest ih => exact ih (built.perform call)

theorem built_run (calls : List Call) : (run calls).Built :=
  Built.empty.performAll calls

/-! ## Growth -/

/-- A trace has all events of an earlier one, under their ids and in their order, and the names of
its flows under their numbers. -/
structure Grows (earlier later : Trace) : Prop where
  arrivals : earlier.arrivals.toList <+: later.arrivals.toList
  order : earlier.order.toList.Sublist later.order.toList
  flowNames : earlier.flowNames <+: later.flowNames

theorem Grows.refl (trace : Trace) : trace.Grows trace :=
  ⟨List.prefix_refl _, List.Sublist.refl _, List.prefix_refl _⟩

theorem Grows.trans {first second third : Trace} (h : first.Grows second)
    (h' : second.Grows third) : first.Grows third :=
  ⟨h.arrivals.trans h'.arrivals, h.order.trans h'.order, h.flowNames.trans h'.flowNames⟩

/-- An id stays with its event. -/
theorem Grows.get?_eq {earlier later : Trace} (h : earlier.Grows later) {id : Nat} {event : Event}
    (hevent : earlier.get? id = some event) : later.get? id = some event := by
  rw [get?, ← Array.getElem?_toList] at hevent ⊢
  obtain ⟨more, hmore⟩ := h.arrivals
  rw [← hmore, List.getElem?_append_left (List.getElem?_eq_some_iff.1 hevent).1, hevent]

/-- The ids of a trace stay in their order. -/
theorem Grows.ids_sublist {earlier later : Trace} (h : earlier.Grows later) :
    earlier.ids.Sublist later.ids :=
  h.order.map _

/-- The flows that have numbers keep them. -/
theorem Grows.flowNumber_eq {earlier later : Trace} (h : earlier.Grows later) {name : String}
    (hname : name ∈ earlier.flowNames) : later.flowNumber name = earlier.flowNumber name := by
  obtain ⟨more, hmore⟩ := h.flowNames
  rw [flowNumber, flowNumber, ← hmore, List.idxOf_append_of_mem hname]

theorem grows_add (trace : Trace) (event : Event) : trace.Grows (trace.add event) where
  arrivals := by
    rw [arrivals_add, Array.toList_push]
    exact List.prefix_append _ _
  order := by
    rw [toList_order_add]
    exact List.sublist_insertIdx _ _ _
  flowNames := List.prefix_refl _

theorem grows_addAll (trace : Trace) (events : List Event) : trace.Grows (trace.addAll events) := by
  induction events generalizing trace with
  | nil => exact Grows.refl trace
  | cons event rest ih => exact (trace.grows_add event).trans (ih (trace.add event))

theorem grows_registerFlow (trace : Trace) (name : String) :
    trace.Grows (trace.registerFlow name) := by
  obtain ⟨harrivals, horder⟩ := trace.registerFlow_eq name
  refine ⟨harrivals ▸ List.prefix_refl _, horder ▸ List.Sublist.refl _, ?_⟩
  unfold registerFlow
  split
  · exact List.prefix_refl _
  · exact List.prefix_append _ _

theorem grows_addFlow (trace : Trace) (name : String) (source target : Nat) :
    trace.Grows (trace.addFlow name source target).1 := by
  obtain ⟨fault, h⟩ | ⟨fault, h⟩ | ⟨_, _, start, finish, _, _, _, h⟩ :=
    trace.addFlow_cases name source target
  · rw [h]
    exact Grows.refl trace
  · rw [h]
    exact trace.grows_registerFlow name
  · rw [h]
    exact ((trace.grows_registerFlow name).trans (grows_add _ start)).trans (grows_add _ finish)

/-- A call only inserts. -/
theorem grows_perform (trace : Trace) (call : Call) : trace.Grows (trace.perform call) := by
  cases call with
  | add event => exact trace.grows_add event
  | addAll events => exact trace.grows_addAll events
  | addFlow name source target => exact trace.grows_addFlow name source target
  | nameProcess pid name =>
      exact ⟨List.prefix_refl _, List.Sublist.refl _, List.prefix_refl _⟩
  | nameThread scope name =>
      exact ⟨List.prefix_refl _, List.Sublist.refl _, List.prefix_refl _⟩

/-- A run of calls only inserts. -/
theorem grows_performAll (trace : Trace) (calls : List Call) :
    trace.Grows (trace.performAll calls) := by
  induction calls generalizing trace with
  | nil => exact Grows.refl trace
  | cons call rest ih => exact (trace.grows_perform call).trans (ih (trace.perform call))

/-! ## Arrivals -/

/-- Added events arrive one after the other. -/
theorem toList_arrivals_addAll (trace : Trace) (events : List Event) :
    (trace.addAll events).arrivals.toList = trace.arrivals.toList ++ events := by
  induction events generalizing trace with
  | nil => simp [addAll]
  | cons event rest ih =>
      show ((trace.add event).addAll rest).arrivals.toList = _
      rw [ih, arrivals_add, Array.toList_push, List.append_assoc]
      rfl

theorem size_add (trace : Trace) (event : Event) : (trace.add event).size = trace.size + 1 := by
  simp [size]

/-- An added event is found under the next id. -/
theorem get?_add_size (trace : Trace) (event : Event) :
    (trace.add event).get? trace.size = some event := by
  simp [get?, size]

/-- What a call inserts arrives at the end. -/
theorem toList_arrivals_perform (trace : Trace) (call : Call) :
    (trace.perform call).arrivals.toList = trace.arrivals.toList ++ trace.inserted call := by
  cases call with
  | add event => exact Array.toList_push
  | addAll events => exact trace.toList_arrivals_addAll events
  | addFlow name source target =>
      show (trace.addFlow name source target).1.arrivals.toList = _
      obtain ⟨fault, h⟩ | ⟨fault, h⟩ | ⟨_, _, start, finish, _, _, _, h⟩ :=
        trace.addFlow_cases name source target
      · simp [inserted, h]
      · simp [inserted, h, (trace.registerFlow_eq name).1]
      · -- the two ids in the answer are the next two of the trace
        have harrivals := (trace.registerFlow_eq name).1
        have hstart := (grows_add _ finish).get?_eq
          ((trace.registerFlow name).get?_add_size start)
        have hfinish := ((trace.registerFlow name).add start).get?_add_size finish
        rw [size_add] at hfinish
        rw [size_registerFlow] at hstart hfinish
        simp [inserted, h, harrivals, hstart, hfinish]
  | nameProcess pid name => exact (List.append_nil _).symm
  | nameThread scope name => exact (List.append_nil _).symm

theorem idsOfAll_eq (trace : Trace) (events : List Event) :
    trace.idsOfAll events = List.range' trace.size events.length := by
  induction events generalizing trace with
  | nil => rfl
  | cons event rest ih =>
      rw [idsOfAll, ih, size_add]
      rfl

/-- A call answers with the next ids, one for each event that it inserts. -/
theorem answered_eq (trace : Trace) (call : Call) :
    trace.answered call = List.range' trace.size (trace.inserted call).length := by
  cases call with
  | add event => rfl
  | addAll events => exact trace.idsOfAll_eq events
  | addFlow name source target =>
      have harrivals := trace.toList_arrivals_perform (.addFlow name source target)
      obtain ⟨fault, h⟩ | ⟨fault, h⟩ | ⟨_, _, start, finish, _, _, _, h⟩ :=
        trace.addFlow_cases name source target
      · simp [answered, inserted, h]
      · simp [answered, inserted, h]
      · -- the flow has inserted two events, since two have arrived
        have hlength := congrArg List.length harrivals
        simp only [perform, h, arrivals_add, (trace.registerFlow_eq name).1, Array.toList_push,
          List.length_append, List.length_singleton] at hlength
        have htwo : (trace.inserted (.addFlow name source target)).length = 2 := by omega
        rw [htwo]
        simp only [answered, h]
        rfl
  | nameProcess pid name => rfl
  | nameThread scope name => rfl

/-- The ids that a call answers with are those of the events that it inserts. -/
theorem map_get?_answered (trace : Trace) (call : Call) :
    (trace.answered call).map (trace.perform call).get? = (trace.inserted call).map some := by
  refine List.ext_getElem? fun k => ?_
  rw [answered_eq, List.getElem?_map, List.getElem?_map]
  by_cases hk : k < (trace.inserted call).length
  · rw [List.getElem?_range' hk, Option.map_some, get?, ← Array.getElem?_toList,
      toList_arrivals_perform, List.getElem?_append_right (by simp [size])]
    simp [size, hk]
  · rw [List.getElem?_eq_none (by simpa using hk), List.getElem?_eq_none (by simpa using hk)]
    rfl

theorem toList_arrivals_performAll (trace : Trace) (calls : List Call) :
    (trace.performAll calls).arrivals.toList =
      trace.arrivals.toList ++ trace.insertedAll calls := by
  induction calls generalizing trace with
  | nil => exact (List.append_nil _).symm
  | cons call rest ih =>
      show ((trace.perform call).performAll rest).arrivals.toList = _
      rw [ih, toList_arrivals_perform, List.append_assoc]
      rfl

theorem toList_arrivals_run (calls : List Call) :
    (run calls).arrivals.toList = insertions calls :=
  empty.toList_arrivals_performAll calls

end EventChains.Trace
