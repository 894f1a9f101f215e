import EventChains.Matching.Scan
import EventChains.Proofs.Matching.Walk
import EventChains.Proofs.Trace.Built

/-!
# Paths and their chains

The path of a chain is the list of its positions. A path that is a part of the trace order gives a
chain whose events are in trace order (`events_sublist`) and which starts no later than it ends
(`start_le_finish`); paths without a common position give chains without a common event
(`disjoint_events`).
-/

namespace EventChains.Matching

variable {trace : Trace} {path other : List Nat}

/-- The positions of the events of a trace. -/
theorem map_snd_placed (trace : Trace) :
    trace.placed.map Prod.snd = List.range trace.order.size := by
  rw [Trace.placed, List.zipIdx_map_snd, List.range_eq_range']
  simp [Trace.events]

theorem map_fst_placed (trace : Trace) : trace.placed.map Prod.fst = trace.events :=
  List.zipIdx_map_fst 0 _

/-- The entry of an event at its position. -/
theorem exists_entry {placed : Placed} (h : placed ∈ trace.placed) :
    ∃ entry, trace.order[placed.2]? = some entry ∧ entry.event = placed.1 := by
  have hevent : trace.events[placed.2]? = some placed.1 := List.mem_zipIdx_iff_getElem?.1 h
  rw [Trace.events, List.getElem?_map, Option.map_eq_some_iff, Array.getElem?_toList] at hevent
  exact hevent

/-- The events at the positions of a path. -/
def eventsAt (trace : Trace) (path : List Nat) : List Event :=
  path.filterMap (trace.events[·]?)

/-- The positions of a start of a walk are a part of the trace order. -/
theorem positions_sublist {position : Nat} {taken : List Placed}
    (h : taken <+: trace.walk position) :
    (taken.map Prod.snd).Sublist (List.range trace.order.size) := by
  rw [← map_snd_placed]
  exact (h.sublist.trans (trace.walk_sublist position)).map Prod.snd

/-- All positions together give all entries. -/
theorem filterMap_range_getElem? {α : Type} (entries : Array α) :
    (List.range entries.size).filterMap (entries[·]?) = entries.toList := by
  have hrange : List.range entries.size = entries.toList.zipIdx.map Prod.snd := by
    rw [List.zipIdx_map_snd, List.range_eq_range', Array.length_toList]
  have hentry : ∀ placed ∈ entries.toList.zipIdx, entries[placed.2]? = some placed.1 := by
    intro placed hplaced
    rw [← Array.getElem?_toList]
    exact List.mem_zipIdx_iff_getElem?.1 hplaced
  rw [hrange, List.filterMap_map]
  show entries.toList.zipIdx.filterMap (fun placed => entries[placed.2]?) = entries.toList
  rw [List.filterMap_congr hentry, List.filterMap_eq_map', List.zipIdx_map_fst]

/-- The entries of a path are a part of the trace order. -/
theorem entries_sublist (h : path.Sublist (List.range trace.order.size)) :
    (path.filterMap (trace.order[·]?)).Sublist trace.order.toList := by
  rw [← filterMap_range_getElem? trace.order]
  exact h.filterMap _

/-- The events of a chain are the ids at its positions. -/
theorem events_chainOfPath (trace : Trace) (label : String) (path : List Nat) :
    (chainOfPath trace label path).events = path.filterMap (trace.ids[·]?) := by
  show (path.filterMap (trace.order[·]?)).map (·.id) = _
  rw [List.map_filterMap]
  refine List.filterMap_congr fun position _ => ?_
  rw [Trace.ids, List.getElem?_map, Array.getElem?_toList]

/-- A chain has an event for each position of its path: the one with the id that stands there. -/
theorem map_some_events_chainOfPath (label : String) (h : ∀ i ∈ path, i < trace.order.size) :
    (chainOfPath trace label path).events.map some = path.map (trace.ids[·]?) := by
  rw [events_chainOfPath, List.map_filterMap]
  have hsome : ∀ i ∈ path, (trace.ids[i]?).map some = some (trace.ids[i]?) := by
    intro i hi
    have hlt : i < trace.ids.length := by simpa [Trace.ids] using h i hi
    rw [List.getElem?_eq_getElem hlt]
    rfl
  rw [List.filterMap_congr hsome, List.filterMap_eq_map']

/-- The events of a chain are in trace order. -/
theorem events_sublist (label : String) (h : path.Sublist (List.range trace.order.size)) :
    (chainOfPath trace label path).events.Sublist trace.ids :=
  (entries_sublist h).map _

/-- Chains without a common position have no common event. -/
theorem disjoint_events (ordered : trace.Ordered) (label : String) (h : path.Disjoint other) :
    (chainOfPath trace label path).events.Disjoint (chainOfPath trace label other).events := by
  intro id hid hother
  rw [events_chainOfPath, List.mem_filterMap] at hid hother
  obtain ⟨i, hi, hidi⟩ := hid
  obtain ⟨j, hj, hidj⟩ := hother
  have hlt : i < trace.ids.length := (List.getElem?_eq_some_iff.1 hidi).1
  have hij : i = j := (List.getElem?_inj hlt ordered.ids_nodup).1 (hidi.trans hidj.symm)
  exact h hi (hij ▸ hj)

/-- In an order of time the first entry is not later than the last one. -/
theorem start_le_finish_ofEntries {entries : List Entry} (label : String)
    (inTime : Trace.InTime entries) :
    (Chain.ofEntries label entries).start ≤ (Chain.ofEntries label entries).finish := by
  cases entries with
  | nil => exact Timestamp.le_refl _
  | cons first rest =>
      have hlast : (first :: rest).getLast? = some ((first :: rest).getLast (by simp)) :=
        List.getLast?_eq_some_getLast _
      show first.event.time ≤ (((first :: rest).getLast?.map (·.event.time)).getD .zero)
      rw [hlast]
      show first.event.time ≤ ((first :: rest).getLast (by simp)).event.time
      rcases List.mem_cons.1 (List.getLast_mem (l := first :: rest) (by simp)) with heq | hmem
      · rw [heq]
        exact Timestamp.le_refl _
      · exact (List.pairwise_cons.1 inTime).1 _ hmem

/-- A chain starts no later than it ends. -/
theorem start_le_finish (ordered : trace.Ordered) (label : String)
    (h : path.Sublist (List.range trace.order.size)) :
    (chainOfPath trace label path).start ≤ (chainOfPath trace label path).finish :=
  start_le_finish_ofEntries label (ordered.inTime.sublist (entries_sublist h))

/-- A chain starts at the time of its first event. -/
theorem start_chainOfPath {i : Nat} (label : String) (hi : path.head? = some i)
    (hlt : i < trace.order.size) :
    (chainOfPath trace label path).start = trace.order[i].event.time := by
  cases path with
  | nil => contradiction
  | cons first rest =>
      cases hi
      simp [chainOfPath, Chain.ofEntries, hlt]

/-- A chain with an earlier first position starts no later. -/
theorem start_le_start (ordered : trace.Ordered) (label : String) {i j : Nat}
    (hi : path.head? = some i) (hj : other.head? = some j) (hij : i < j)
    (hlt : j < trace.order.size) :
    (chainOfPath trace label path).start ≤ (chainOfPath trace label other).start := by
  rw [start_chainOfPath label hi (by omega), start_chainOfPath label hj hlt]
  have := List.pairwise_iff_getElem.1 ordered.inTime i j (by simp; omega) (by simpa using hlt) hij
  simpa using this

end EventChains.Matching
