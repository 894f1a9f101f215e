import EventChains.Proofs.StableSort
import EventChains.Proofs.Trace.Built

/-!
# The trace order as a stable sort

The trace order is kept by bisection and insertion, one event at a time. `Built.stable` says what
comes out of it after any number of operations: the stable sort by time of all entries in order of
arrival. So an entry of the order has the event that arrived under its id (`Stable.get?_eq`),
entries of the same time stand in order of their ids (`Stable.inOrder`), and the events are the
stable sort of the arrivals (`Stable.events_eq`).
-/

namespace EventChains.Trace

/-- Whether an event may stand before another one in an order of time. -/
def notLater (a b : Event) : Bool :=
  a.time ≤ b.time

/-- Whether an entry may stand before another one in an order of time. -/
def entryNotLater (a b : Entry) : Bool :=
  notLater a.event b.event

/-- The entries of a trace in order of arrival. -/
def arrived (trace : Trace) : List Entry :=
  trace.arrivals.toList.zipIdx.map fun (event, id) => ⟨id, event⟩

/-- The trace order is the stable sort of the entries in order of arrival. -/
def Stable (trace : Trace) : Prop :=
  trace.order.toList = trace.arrived.mergeSort entryNotLater

variable {trace : Trace}

theorem notLater_iff {a b : Event} : notLater a b = true ↔ a.time ≤ b.time :=
  decide_eq_true_iff

theorem entryNotLater_iff {a b : Entry} :
    entryNotLater a b = true ↔ a.event.time ≤ b.event.time :=
  decide_eq_true_iff

theorem entryNotLater_trans (a b c : Entry) (hab : entryNotLater a b = true)
    (hbc : entryNotLater b c = true) : entryNotLater a c = true :=
  entryNotLater_iff.2 (Timestamp.le_trans (entryNotLater_iff.1 hab) (entryNotLater_iff.1 hbc))

theorem entryNotLater_total (a b : Entry) : (entryNotLater a b || entryNotLater b a) = true := by
  rw [Bool.or_eq_true, entryNotLater_iff, entryNotLater_iff]
  exact Timestamp.le_total _ _

/-- The ids of the entries in order of arrival count them. -/
theorem map_id_arrived (trace : Trace) : trace.arrived.map (·.id) = List.range trace.size := by
  rw [arrived, List.map_map]
  show trace.arrivals.toList.zipIdx.map Prod.snd = _
  rw [List.zipIdx_map_snd, List.range_eq_range', Array.length_toList, size]

theorem map_event_arrived (trace : Trace) :
    trace.arrived.map (·.event) = trace.arrivals.toList := by
  rw [arrived, List.map_map]
  exact List.zipIdx_map_fst 0 _

/-- Entries arrive in order of their ids. -/
theorem arrived_increasing (trace : Trace) : trace.arrived.Pairwise fun a b => a.id < b.id := by
  have h := List.pairwise_lt_range (n := trace.size)
  rw [← map_id_arrived] at h
  exact List.pairwise_map.1 h

/-- An entry arrives with its event under its id. -/
theorem get?_of_mem_arrived {entry : Entry} (h : entry ∈ trace.arrived) :
    trace.get? entry.id = some entry.event := by
  obtain ⟨⟨event, id⟩, hmem, rfl⟩ := List.mem_map.1 h
  rw [get?, ← Array.getElem?_toList]
  exact List.mem_zipIdx_iff_getElem?.1 hmem

theorem arrived_add (trace : Trace) (event : Event) :
    (trace.add event).arrived = trace.arrived ++ [⟨trace.size, event⟩] := by
  simp [arrived, size, List.zipIdx_append]

/-! ## What a stable order says -/

/-- The order has the entries that have arrived. -/
theorem Stable.perm (stable : trace.Stable) : trace.order.toList.Perm trace.arrived := by
  rw [stable]
  exact List.mergeSort_perm _ _

theorem Stable.ordered (stable : trace.Stable) : trace.Ordered where
  inTime := by
    have h := List.pairwise_mergeSort entryNotLater_trans entryNotLater_total trace.arrived
    rw [← stable] at h
    exact h.imp entryNotLater_iff.1
  ids_perm := by
    rw [← map_id_arrived]
    exact stable.perm.map _

/-- An entry of the trace order is found under its id. -/
theorem Stable.get?_eq (stable : trace.Stable) {entry : Entry}
    (h : entry ∈ trace.order.toList) : trace.get? entry.id = some entry.event :=
  get?_of_mem_arrived (stable.perm.subset h)

/-- The ids in trace order are found with the events in trace order. -/
theorem Stable.map_get?_ids (stable : trace.Stable) :
    trace.ids.map trace.get? = trace.events.map some := by
  rw [ids, events, List.map_map, List.map_map]
  exact List.map_congr_left fun entry hentry => stable.get?_eq hentry

/-- Entries stand in order of time, and those of the same time in order of arrival. -/
theorem Stable.inOrder (stable : trace.Stable) :
    trace.order.toList.Pairwise fun a b =>
      a.event.time ≤ b.event.time ∧ (b.event.time ≤ a.event.time → a.id < b.id) := by
  refine stable.ordered.inTime.and (List.pairwise_iff_forall_sublist.2 fun {a b} hsublist hba => ?_)
  have hab := List.pairwise_iff_forall_sublist.1 stable.ordered.inTime hsublist
  -- two entries that tie are left by sorting as they have arrived
  have hties : [a, b].filter (ties entryNotLater a) = [a, b] := by
    have haa := Timestamp.le_refl a.event.time
    simp [ties, entryNotLater_iff, haa, hab, hba]
  have hfilter := hsublist.filter (ties entryNotLater a)
  rw [hties, stable, filter_ties_mergeSort entryNotLater_trans entryNotLater_total] at hfilter
  exact List.pairwise_iff_forall_sublist.1 trace.arrived_increasing
    (hfilter.trans List.filter_sublist)

/-- The events are the stable sort of the arrivals. -/
theorem Stable.events_eq (stable : trace.Stable) :
    trace.events = trace.arrivals.toList.mergeSort notLater := by
  have hmap : (trace.arrived.mergeSort entryNotLater).map (·.event) =
      (trace.arrived.map (·.event)).mergeSort notLater :=
    List.map_mergeSort fun _ _ _ _ => rfl
  rw [events, stable, hmap, map_event_arrived]

/-- A process has events in trace order if it has any. -/
theorem Stable.hasProcess_eq (stable : trace.Stable) (pid : UInt64) :
    trace.hasProcess pid = trace.events.any (·.scope.pid == pid) := by
  have hperm : trace.events.Perm trace.arrivals.toList := by
    rw [stable.events_eq]
    exact List.mergeSort_perm _ _
  rw [hasProcess, hperm.any_eq, Array.any_toList]

/-! ## Operations keep the order stable -/

/-- An event goes behind all entries that tie with it. -/
theorem filter_ties_insert (inTime : InTime trace.order.toList) (event : Event) (id : Nat)
    (a : Entry) :
    (trace.order.toList.insertIdx (trace.place event.time) ⟨id, event⟩).filter
        (ties entryNotLater a) =
      (trace.order.toList ++ [(⟨id, event⟩ : Entry)]).filter (ties entryNotLater a) := by
  rw [insertIdx_eq_take_drop _ _ (by simpa using trace.place_le event.time), List.filter_append,
    List.filter_append, List.filter_cons]
  split
  · rename_i hties
    -- no entry behind the place ties with the event
    have hdrop : (trace.order.toList.drop (trace.place event.time)).filter
        (ties entryNotLater a) = [] := by
      refine List.filter_eq_nil_iff.2 fun entry hentry htie => ?_
      simp only [ties, Bool.and_eq_true, entryNotLater_iff] at hties htie
      exact not_le_of_mem_drop_place inTime hentry (Timestamp.le_trans htie.2 hties.1)
    have hwhole := congrArg (List.filter (ties entryNotLater a))
      (List.take_append_drop (trace.place event.time) trace.order.toList)
    rw [List.filter_append, hdrop, List.append_nil] at hwhole
    rw [hdrop, hwhole, List.filter_cons_of_pos hties, List.filter_nil]
  · rename_i hties
    rw [← List.filter_append, List.take_append_drop, List.filter_cons_of_neg hties,
      List.filter_nil, List.append_nil]

/-- Adding an event keeps the order stable. -/
theorem Stable.add (stable : trace.Stable) (event : Event) : (trace.add event).Stable := by
  have hsorted := (stable.ordered.add event).inTime
  refine eq_of_filter_ties entryNotLater_total (hsorted.imp entryNotLater_iff.2)
    (List.pairwise_mergeSort entryNotLater_trans entryNotLater_total _) fun a => ?_
  rw [toList_order_add, filter_ties_insert stable.ordered.inTime,
    filter_ties_mergeSort entryNotLater_trans entryNotLater_total, arrived_add, List.filter_append,
    List.filter_append, stable, filter_ties_mergeSort entryNotLater_trans entryNotLater_total]

theorem Stable.registerFlow (stable : trace.Stable) (name : String) :
    (trace.registerFlow name).Stable := by
  obtain ⟨harrivals, horder⟩ := trace.registerFlow_eq name
  show (trace.registerFlow name).order.toList = _
  rw [arrived, harrivals, horder]
  exact stable

/-- Every trace that operations build has a stable order. -/
theorem Built.stable (built : trace.Built) : trace.Stable := by
  induction built with
  | empty => exact (List.mergeSort_nil ..).symm
  | add event _ ih => exact ih.add event
  | @addFlow trace name source target _ ih =>
      obtain ⟨fault, h⟩ | ⟨fault, h⟩ | ⟨_, _, start, finish, _, _, _, h⟩ :=
        trace.addFlow_cases name source target
      · rw [h]
        exact ih
      · rw [h]
        exact ih.registerFlow name
      · rw [h]
        exact ((ih.registerFlow name).add start).add finish
  | nameProcess _ _ _ ih => exact ih
  | nameThread _ _ _ ih => exact ih

end EventChains.Trace
