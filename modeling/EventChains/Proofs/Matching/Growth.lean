import EventChains.Proofs.Matching.Span
import EventChains.Proofs.Trace.Runs

/-!
# Chains of a growing trace

Any calls on the empty trace leave the stable sort by time of what they have inserted, and further
calls only insert (`run_sorts_stably`). So a chain that has been found stands in every later trace
as it stood in the one where it was found: its events are in trace order, and it starts and ends
when they do (`Found.standsIn`).
-/

namespace EventChains

open Matching

/-- A chain stands in a trace: its events are there in trace order, and its start and its end are
the times of the first and the last one. -/
structure Chain.StandsIn (chain : Chain) (trace : Trace) : Prop where
  sublist : chain.events.Sublist trace.ids
  start_eq : (chain.first?.bind trace.get?).map (·.time) = some chain.start
  finish_eq : (chain.last?.bind trace.get?).map (·.time) = some chain.finish

/-- A trace has the events of a sequence in stable order: by time, and events of the same time as
they stand in the sequence. An id is a place in the sequence. -/
structure Trace.InStableOrder (trace : Trace) (sequence : List Event) : Prop where
  get?_eq : ∀ id, trace.get? id = sequence[id]?
  ids_perm : trace.ids.Perm (List.range sequence.length)
  map_get?_ids : trace.ids.map trace.get? = trace.events.map some
  inOrder : trace.ids.Pairwise fun i j =>
    ∀ a b, sequence[i]? = some a → sequence[j]? = some b →
      a.time ≤ b.time ∧ (b.time ≤ a.time → i < j)
  events_eq : trace.events = sequence.mergeSort notLater

namespace Matching

variable {trace later : Trace} {chain : Chain}

/-- The chain of some entries of a trace stands in the trace. -/
theorem standsIn_ofEntries (stable : trace.Stable) (label : String) {entries : List Entry}
    (hne : entries ≠ []) (hsublist : entries.Sublist trace.order.toList) :
    (Chain.ofEntries label entries).StandsIn trace := by
  have hfirst := stable.get?_eq (hsublist.subset (List.head_mem hne))
  have hlast := stable.get?_eq (hsublist.subset (List.getLast_mem hne))
  refine ⟨hsublist.map _, ?_, ?_⟩
  · show ((entries.map (·.id)).head?.bind trace.get?).map (·.time) =
      some ((entries.head?.map (·.event.time)).getD .zero)
    simp [List.head?_eq_some_head hne, hfirst]
  · show ((entries.map (·.id)).getLast?.bind trace.get?).map (·.time) =
      some ((entries.getLast?.map (·.event.time)).getD .zero)
    simp [List.getLast?_eq_some_getLast hne, hlast]

/-- A chain that has been found is the chain of a start of a walk. -/
theorem Found.exists_taken (found : Found trace chain) :
    ∃ position taken, taken <+: trace.walk position ∧
      chain = chainOfPath trace chain.label (taken.map Prod.snd) := by
  obtain ⟨path, hfound, hchain⟩ := found
  obtain ⟨_, position, more, hmore⟩ := hfound.isPrefix
  obtain ⟨taken, rest, hwalk, htaken, _⟩ := List.map_eq_append_iff.1 hmore.symm
  exact ⟨position, taken, ⟨rest, hwalk.symm⟩, by rwa [htaken]⟩

/-- A chain that has been found is the chain of entries in trace order. -/
theorem Found.exists_entries (found : Found trace chain) :
    ∃ entries, entries ≠ [] ∧ entries.Sublist trace.order.toList ∧
      chain = Chain.ofEntries chain.label entries := by
  obtain ⟨position, taken, hpre, hchain⟩ := found.exists_taken
  refine ⟨_, fun hnil => found.events_ne_nil ?_, entries_sublist (positions_sublist hpre), hchain⟩
  rw [hchain, chainOfPath, hnil]
  rfl

/-- A chain that has been found stands in every later trace. -/
theorem Found.standsIn (found : Found trace chain) (grows : trace.Grows later)
    (stable : later.Stable) : chain.StandsIn later := by
  obtain ⟨entries, hne, hsublist, hchain⟩ := found.exists_entries
  rw [hchain]
  exact standsIn_ofEntries stable chain.label hne (hsublist.trans grows.order)

/-- The trace order after some calls is a stable order of what they have inserted. -/
theorem inStableOrder_run (calls : List Trace.Call) :
    (Trace.run calls).InStableOrder (Trace.insertions calls) := by
  have stable := (Trace.built_run calls).stable
  have harrivals := Trace.toList_arrivals_run calls
  have hget (id : Nat) : (Trace.run calls).get? id = (Trace.insertions calls)[id]? := by
    rw [Trace.get?, ← Array.getElem?_toList, harrivals]
  have hlength : (Trace.insertions calls).length = (Trace.run calls).size := by
    rw [← harrivals, Array.length_toList, Trace.size]
  refine ⟨hget, hlength ▸ stable.ordered.ids_perm, stable.map_get?_ids, ?_,
    harrivals ▸ stable.events_eq⟩
  refine List.pairwise_map.2 (stable.inOrder.imp_of_mem fun {a b} ha hb h c d hc hd => ?_)
  -- what stands at an id is the event of the entry with the id
  rw [← hget, stable.get?_eq ha] at hc
  rw [← hget, stable.get?_eq hb] at hd
  cases hc
  cases hd
  exact h

/-- Calls on the empty trace leave the stable sort of what they have inserted, whichever of them
fail. Each call answers with the next ids, one for each event that it inserts, and finds the events
under them. Later calls only insert: each id stays with its event, the ids stay in their order, and
each chain that has been found stands where it stood. -/
theorem run_sorts_stably (calls : List Trace.Call) :
    let trace := Trace.run calls
    trace.InStableOrder (Trace.insertions calls) ∧
      (∀ call, trace.answered call = List.range' trace.size (trace.inserted call).length ∧
        (trace.answered call).map (trace.perform call).get? = (trace.inserted call).map some) ∧
      ∀ more, let later := Trace.run (calls ++ more)
        (∀ id event, trace.get? id = some event → later.get? id = some event) ∧
        trace.ids.Sublist later.ids ∧
        ∀ pattern label rule, ∀ chain ∈ find trace pattern label rule, chain.StandsIn later := by
  intro trace
  refine ⟨inStableOrder_run calls,
    fun call => ⟨trace.answered_eq call, trace.map_get?_answered call⟩, fun more => ?_⟩
  intro later
  have grows : trace.Grows later := by
    show trace.Grows (Trace.run (calls ++ more))
    rw [Trace.run_append]
    exact trace.grows_performAll more
  have stable := (Trace.built_run (calls ++ more)).stable
  refine ⟨fun id event hevent => grows.get?_eq hevent, grows.ids_sublist, ?_⟩
  intro pattern label rule chain hchain
  exact (found_of_mem_find hchain).standsIn grows stable

end Matching

end EventChains
