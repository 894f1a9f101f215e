import EventChains.Proofs.Time
import EventChains.Trace.Basic
import Mathlib.Data.List.InsertIdx
import Mathlib.Data.List.Nodup
import Mathlib.Data.List.Perm.Basic

/-!
# Traces that operations build

A trace comes from the empty one by adding events and flows and by naming processes and threads.
`Built.ordered` says what all these traces have in common: the trace order is an order of time, and
the ids in it are the numbers below the size of the trace, each once.
-/

namespace EventChains.Trace

/-- What the operations on traces build. -/
inductive Built : Trace → Prop where
  | empty : Built .empty
  | add {trace : Trace} (event : Event) : Built trace → Built (trace.add event)
  | addFlow {trace : Trace} (name : String) (source target : Nat) :
      Built trace → Built (trace.addFlow name source target).1
  | nameProcess {trace : Trace} (pid : UInt64) (name : String) :
      Built trace → Built (trace.nameProcess pid name)
  | nameThread {trace : Trace} (scope : Scope) (name : String) :
      Built trace → Built (trace.nameThread scope name)

/-- Adding events one after the other builds a trace. -/
theorem Built.addAll {trace : Trace} (built : trace.Built) (events : List Event) :
    (trace.addAll events).Built := by
  induction events generalizing trace with
  | nil => exact built
  | cons event rest ih => exact ih (.add event built)

/-- The trace of some events is built. -/
theorem built_ofEvents (events : List Event) : (ofEvents events).Built :=
  Built.empty.addAll events

/-- Entries of a trace in an order of time. -/
def InTime (entries : List Entry) : Prop :=
  entries.Pairwise fun earlier later => earlier.event.time ≤ later.event.time

/-- The trace order is an order of time over all ids. -/
structure Ordered (trace : Trace) : Prop where
  inTime : InTime trace.order.toList
  ids_perm : trace.ids.Perm (List.range trace.size)

/-- The place of a new event is one of the trace order or its end. -/
theorem place_le (trace : Trace) (time : Timestamp) : trace.place time ≤ trace.order.size :=
  boundary_le _ _

/-- Exactly the entries before the place of a new event are not later than the event. -/
theorem lt_place_iff {trace : Trace} (ordered : InTime trace.order.toList) (time : Timestamp)
    {position : Nat} (h : position < trace.order.size) :
    position < trace.place time ↔ trace.order[position].event.time ≤ time := by
  rw [place, ← prop_iff_lt_boundary _ _ _ position h, decide_eq_true_eq]
  -- the search by halves needs that no entry is too late before one that is not
  intro i j hij hj hle
  rw [decide_eq_true_eq] at hle ⊢
  rcases Nat.lt_or_eq_of_le hij with hlt | rfl
  · have := List.pairwise_iff_getElem.1 ordered i j (by simp; omega) (by simpa using hj) hlt
    exact Timestamp.le_trans (by simpa using this) hle
  · exact hle

/-- An insertion cuts a list in two. -/
theorem insertIdx_eq_take_drop {α : Type} (items : List α) (x : α) {place : Nat}
    (h : place ≤ items.length) :
    items.insertIdx place x = items.take place ++ x :: items.drop place := by
  induction items generalizing place with
  | nil => simp_all
  | cons y rest ih =>
      cases place with
      | zero => simp
      | succ place => simp [ih (Nat.le_of_succ_le_succ h)]

/-- No entry before the place of a new event is later than the event. -/
theorem le_of_mem_take_place {trace : Trace} (ordered : InTime trace.order.toList)
    {time : Timestamp} {entry : Entry} (h : entry ∈ trace.order.toList.take (trace.place time)) :
    entry.event.time ≤ time := by
  obtain ⟨i, hi, rfl⟩ := List.mem_take_iff_getElem.1 h
  simp only [Array.length_toList] at hi
  exact (lt_place_iff ordered time (by omega)).1 (by omega)

/-- All entries behind the place of a new event are later than the event. -/
theorem not_le_of_mem_drop_place {trace : Trace} (ordered : InTime trace.order.toList)
    {time : Timestamp} {entry : Entry} (h : entry ∈ trace.order.toList.drop (trace.place time)) :
    ¬ entry.event.time ≤ time := by
  intro hle
  obtain ⟨i, hi, rfl⟩ := List.mem_drop_iff_getElem.1 h
  simp only [Array.length_toList] at hi
  have hlt := (lt_place_iff ordered time (by omega)).2 hle
  omega

/-- An event at its place leaves the order of time intact. -/
theorem InTime.insert {trace : Trace} (ordered : InTime trace.order.toList) (event : Event)
    (id : Nat) : InTime (trace.order.toList.insertIdx (trace.place event.time) ⟨id, event⟩) := by
  have hbefore : ∀ entry ∈ trace.order.toList.take (trace.place event.time),
      entry.event.time ≤ event.time :=
    fun entry hentry => le_of_mem_take_place ordered hentry
  have hafter : ∀ entry ∈ trace.order.toList.drop (trace.place event.time),
      event.time ≤ entry.event.time :=
    fun entry hentry =>
      (Timestamp.le_total _ _).resolve_right (not_le_of_mem_drop_place ordered hentry)
  have hcut := ordered
  rw [InTime, ← List.take_append_drop (trace.place event.time) trace.order.toList,
    List.pairwise_append] at hcut
  obtain ⟨htake, hdrop, hcross⟩ := hcut
  rw [InTime, insertIdx_eq_take_drop _ _ (by simpa using trace.place_le event.time),
    List.pairwise_append, List.pairwise_cons]
  refine ⟨htake, ⟨hafter, hdrop⟩, fun entry hentry later hlater => ?_⟩
  -- an entry before the place against the new event, and against those after the place
  rcases List.mem_cons.1 hlater with rfl | hlater
  · exact hbefore entry hentry
  · exact hcross entry hentry later hlater

/-- An added event stands at its place. -/
theorem toList_order_add (trace : Trace) (event : Event) :
    (trace.add event).order.toList =
      trace.order.toList.insertIdx (trace.place event.time) ⟨trace.size, event⟩ :=
  Array.toList_insertIdx (trace.place_le event.time)

/-- Adding an event keeps a trace ordered. -/
theorem Ordered.add {trace : Trace} (ordered : trace.Ordered) (event : Event) :
    (trace.add event).Ordered where
  inTime := by
    rw [toList_order_add]
    exact ordered.inTime.insert event _
  ids_perm := by
    have hids : (trace.add event).ids =
        trace.ids.insertIdx (trace.place event.time) trace.size := by
      rw [ids, toList_order_add, List.map_insertIdx, ids]
    have hplace : trace.place event.time ≤ trace.ids.length := by
      simpa [ids] using trace.place_le event.time
    rw [hids, show (trace.add event).size = trace.size + 1 by simp [size], List.range_succ]
    refine (List.perm_insertIdx _ _ hplace).trans ?_
    exact (List.Perm.cons _ ordered.ids_perm).trans (List.perm_append_singleton _ _).symm

/-- Giving a flow its number leaves the events and their order alone. -/
theorem registerFlow_eq (trace : Trace) (name : String) :
    (trace.registerFlow name).arrivals = trace.arrivals ∧
      (trace.registerFlow name).order = trace.order := by
  unfold registerFlow
  split
  · exact ⟨rfl, rfl⟩
  · exact ⟨rfl, rfl⟩

theorem size_registerFlow (trace : Trace) (name : String) :
    (trace.registerFlow name).size = trace.size := by
  rw [size, (trace.registerFlow_eq name).1, size]

theorem Ordered.registerFlow {trace : Trace} (ordered : trace.Ordered) (name : String) :
    (trace.registerFlow name).Ordered := by
  obtain ⟨_, horder⟩ := trace.registerFlow_eq name
  refine ⟨?_, ?_⟩
  · rw [horder]
    exact ordered.inTime
  · rw [ids, horder, size_registerFlow]
    exact ordered.ids_perm

/-- What a call for a flow does: it finds that the trace does not have one of the two events; it
gives the name of the flow a number, and then finds that its events cannot be made; or it makes
them and adds them one after the other. -/
theorem addFlow_cases (trace : Trace) (name : String) (source target : Nat) :
    (∃ fault, trace.addFlow name source target = (trace, .error fault)) ∨
    (∃ fault, trace.addFlow name source target = (trace.registerFlow name, .error fault)) ∨
    ∃ origin goal start finish, trace.get? source = some origin ∧ trace.get? target = some goal ∧
      flowEvents name origin goal (trace.flowNumber name) = .ok (start, finish) ∧
      trace.addFlow name source target =
        (((trace.registerFlow name).add start).add finish, .ok (trace.size, trace.size + 1)) := by
  unfold addFlow
  cases hsource : trace.get? source with
  | none => exact Or.inl ⟨_, rfl⟩
  | some origin =>
      cases htarget : trace.get? target with
      | none => exact Or.inl ⟨_, rfl⟩
      | some goal =>
          dsimp only
          cases hevents : flowEvents name origin goal (trace.flowNumber name) with
          | error fault => exact Or.inr (Or.inl ⟨fault, rfl⟩)
          | ok made =>
              obtain ⟨start, finish⟩ := made
              exact Or.inr (Or.inr ⟨origin, goal, start, finish, rfl, rfl, hevents, rfl⟩)

/-- Every trace that operations build is ordered. -/
theorem Built.ordered {trace : Trace} (built : trace.Built) : trace.Ordered := by
  induction built with
  | empty => exact ⟨List.Pairwise.nil, List.Perm.nil⟩
  | add event _ ih => exact ih.add event
  | @addFlow trace name source target _ ih =>
      obtain ⟨fault, h⟩ | ⟨fault, h⟩ | ⟨_, _, start, finish, _, _, _, h⟩ :=
        trace.addFlow_cases name source target
      · rw [h]
        exact ih
      · rw [h]
        exact ih.registerFlow name
      · rw [h]
        exact ((ih.registerFlow name).add start).add finish
  | nameProcess _ _ _ ih => exact ⟨ih.inTime, ih.ids_perm⟩
  | nameThread _ _ _ ih => exact ⟨ih.inTime, ih.ids_perm⟩

/-- No id stands twice in the trace order. -/
theorem Ordered.ids_nodup {trace : Trace} (ordered : trace.Ordered) : trace.ids.Nodup :=
  ordered.ids_perm.nodup_iff.2 List.nodup_range

/-! ## Sample events

All samples share the proofs that their names are not empty. -/

theorem load_ne_empty : "load" ≠ "" := by decide

theorem read_ne_empty : "read" ≠ "" := by decide

theorem send_ne_empty : "send" ≠ "" := by decide

/-- A load with a read in it. -/
def load : Trace :=
  ofEvents
    [⟨"load", .spanBegin, .zero, {}, none, [], by decide⟩,
      ⟨"read", .instant, .zero, {}, none, [], by decide⟩,
      ⟨"load", .spanEnd, .zero, {}, none, [], by decide⟩]

theorem built_load : load.Built :=
  built_ofEvents _

/-- Loads that begin at some times. -/
def loadsAt (times : List Timestamp) : Trace :=
  ofEvents (times.map fun time => ⟨"load", .spanBegin, time, {}, none, [], load_ne_empty⟩)

theorem built_loadsAt (times : List Timestamp) : (loadsAt times).Built :=
  built_ofEvents _

end EventChains.Trace
