import EventChains.Proofs.Matching.Chains
import EventChains.Proofs.Matching.Occurrences
import EventChains.Proofs.Trace.Part

/-!
# Chains of a part of a trace

The events of a part of a trace have other ids and other positions than in the whole trace.
`map_occurrences_placedWhere` says what the chains of a part are in terms of the whole trace: the
occurrences among the events of the part at their old positions, each event with its old id.
-/

namespace EventChains

open Matching

/-- The chain whose events have other ids: event `i` becomes the one with the id at place `i`. -/
def Chain.carried (ids : List Nat) (chain : Chain) : Chain :=
  { chain with events := chain.events.filterMap (ids[·]?) }

namespace Trace

variable (trace : Trace) (keep : Entry → Bool)

/-- Some entries of a trace with their positions. -/
def keptWhere : List (Entry × Nat) :=
  trace.order.toList.zipIdx.filter fun kept => keep kept.1

/-- Some events of a trace with their positions in the whole trace. -/
def placedWhere : List Placed :=
  (trace.keptWhere keep).map fun kept => (kept.1.event, kept.2)

/-- The position in the whole trace of the event at a position of a part. -/
def wholePosition (position : Nat) : Nat :=
  ((trace.keptWhere keep)[position]?.map Prod.snd).getD 0

variable {trace keep} {kept : Entry × Nat} {position : Nat}

/-- The events of a trace with their positions are those of its entries. -/
theorem placed_eq_map (trace : Trace) :
    trace.placed = trace.order.toList.zipIdx.map fun kept => (kept.1.event, kept.2) := by
  rw [placed, events, List.zipIdx_map]
  rfl

theorem map_fst_keptWhere : (trace.keptWhere keep).map Prod.fst = trace.entriesWhere keep := by
  show (trace.order.toList.zipIdx.filter (keep ∘ Prod.fst)).map Prod.fst = _
  rw [← List.filter_map, List.zipIdx_map_fst, entriesWhere]

theorem getElem?_entriesWhere (position : Nat) :
    (trace.entriesWhere keep)[position]? = (trace.keptWhere keep)[position]?.map Prod.fst := by
  rw [← map_fst_keptWhere, List.getElem?_map]

/-- An entry that is kept stands at its position in the whole trace. -/
theorem getElem?_order_of_kept (h : (trace.keptWhere keep)[position]? = some kept) :
    trace.order[kept.2]? = some kept.1 := by
  have hmem := List.mem_of_mem_filter (List.mem_of_getElem? h)
  rw [← Array.getElem?_toList]
  exact List.mem_zipIdx_iff_getElem?.1 hmem

theorem wholePosition_of_kept (h : (trace.keptWhere keep)[position]? = some kept) :
    trace.wholePosition keep position = kept.2 := by
  rw [wholePosition, h]
  rfl

/-- Different positions of a part are different positions of the whole trace. -/
theorem wholePosition_inj {i j : Nat} (hi : i < (trace.keptWhere keep).length)
    (hj : j < (trace.keptWhere keep).length)
    (h : trace.wholePosition keep i = trace.wholePosition keep j) : i = j := by
  have hnodup : ((trace.keptWhere keep).map Prod.snd).Nodup := by
    refine List.Nodup.sublist (List.filter_sublist.map Prod.snd) ?_
    rw [List.zipIdx_map_snd]
    exact List.nodup_range'
  rw [wholePosition_of_kept (List.getElem?_eq_getElem hi),
    wholePosition_of_kept (List.getElem?_eq_getElem hj)] at h
  refine (List.getElem?_inj (by simpa using hi) hnodup).1 ?_
  rw [List.getElem?_map, List.getElem?_map, List.getElem?_eq_getElem hi,
    List.getElem?_eq_getElem hj]
  exact congrArg some h

/-- The events of a part with the positions of the whole trace. -/
theorem map_placed_part (ordered : InTime trace.order.toList) :
    (trace.part keep).placed.map (renumber (trace.wholePosition keep)) =
      trace.placedWhere keep := by
  refine List.ext_getElem? fun i => ?_
  rw [placed, events_part ordered, placedWhere, List.getElem?_map, List.getElem?_zipIdx,
    List.getElem?_map, List.getElem?_map, getElem?_entriesWhere]
  cases hkept : (trace.keptWhere keep)[i]? with
  | none => rfl
  | some kept =>
      have hposition := wholePosition_of_kept hkept
      simp [renumber, hposition]

theorem length_placed_part (ordered : InTime trace.order.toList) :
    (trace.part keep).placed.length = (trace.keptWhere keep).length := by
  rw [placed, List.length_zipIdx, events_part ordered, List.length_map, ← map_fst_keptWhere,
    List.length_map]

end Trace

namespace Matching

variable {trace : Trace} {keep : Entry → Bool} {path : List Nat}

/-- A chain of some entries starts and ends at the times of their events. -/
theorem ofEntries_eq (label : String) (entries : List Entry) :
    Chain.ofEntries label entries =
      { label
        events := entries.map (·.id)
        start := ((entries.map (·.event)).head?.map (·.time)).getD .zero
        finish := ((entries.map (·.event)).getLast?.map (·.time)).getD .zero } := by
  rw [List.head?_map, List.getLast?_map, Option.map_map, Option.map_map]
  rfl

/-- A chain of a part, in terms of the whole trace. -/
theorem carried_chainOfPath (ordered : Trace.InTime trace.order.toList) (label : String)
    (hpath : ∀ i ∈ path, i < (trace.keptWhere keep).length) :
    (chainOfPath (trace.part keep) label path).carried (trace.idsWhere keep) =
      chainOfPath trace label (path.map (trace.wholePosition keep)) := by
  have hwhole : (path.map (trace.wholePosition keep)).filterMap (trace.order[·]?) =
      path.filterMap ((trace.entriesWhere keep)[·]?) := by
    rw [List.filterMap_map]
    refine List.filterMap_congr fun i hi => ?_
    have hkept := List.getElem?_eq_getElem (hpath i hi)
    show trace.order[trace.wholePosition keep i]? = _
    rw [Trace.wholePosition_of_kept hkept, Trace.getElem?_order_of_kept hkept,
      Trace.getElem?_entriesWhere, hkept]
    rfl
  have hpart : path.filterMap ((trace.part keep).order[·]?) =
      path.filterMap fun i => (trace.entriesWhere keep)[i]?.map fun entry => ⟨i, entry.event⟩ :=
    List.filterMap_congr fun i _ => Trace.getElem?_order_part ordered i
  have hevents : (path.filterMap ((trace.part keep).order[·]?)).map (·.event) =
      (path.filterMap ((trace.entriesWhere keep)[·]?)).map (·.event) := by
    rw [hpart, List.map_filterMap, List.map_filterMap]
    refine List.filterMap_congr fun i _ => ?_
    rw [Option.map_map]
    rfl
  have hids : ((path.filterMap ((trace.part keep).order[·]?)).map (·.id)).filterMap
      ((trace.idsWhere keep)[·]?) =
        (path.filterMap ((trace.entriesWhere keep)[·]?)).map (·.id) := by
    rw [hpart, List.map_filterMap, List.filterMap_filterMap, List.map_filterMap]
    refine List.filterMap_congr fun i _ => ?_
    rw [Trace.idsWhere]
    cases h : (trace.entriesWhere keep)[i]? with
    | none => rfl
    | some entry => simp [h]
  rw [chainOfPath, chainOfPath, hwhole, ofEntries_eq, ofEntries_eq, Chain.carried, hevents, hids]

/-- The chains of a pattern, from the occurrences of its tokens. -/
theorem find_eq_map_occurrences {pattern : Pattern} {name : String} {edge : Edge}
    {following : List Token} (htokens : pattern.tokens = .named name edge :: following)
    (separated : Pattern.Separated pattern.tokens) (fit : trace.KindsFit) (label : String)
    (rule : RepeatRule) :
    find trace pattern label rule = (occurrences rule pattern.tokens ∅ trace.placed).map
      fun taken => chainOfPath trace label (taken.map Prod.snd) := by
  show ((Course.ofTrace trace).find pattern rule).map (chainOfPath trace label) = _
  rw [find_eq_paths fit separated rule, Plain.paths, htokens, scan_eq_occurrences, List.map_map]
  rfl

/-- The kinds of the events of a part fit if those of the whole trace do. -/
theorem kindsFit_part (fit : trace.KindsFit) (ordered : Trace.InTime trace.order.toList) :
    (trace.part keep).KindsFit := by
  refine fit.of_subset ?_
  rw [Trace.events_part ordered]
  exact List.map_subset _ (List.filter_subset_self _)

/-- The chains of a pattern among events that are added in an order of time. -/
theorem find_ofEvents {pattern : Pattern} {name : String} {edge : Edge} {following : List Token}
    (htokens : pattern.tokens = .named name edge :: following)
    (separated : Pattern.Separated pattern.tokens) {events : List Event}
    (inTime : Trace.EventsInTime events) (hlength : events.length ≤ UInt32.size) (label : String)
    (rule : RepeatRule) :
    find (.ofEvents events) pattern label rule =
      ((occurrences rule pattern.tokens ∅ events.zipIdx).map (·.map Prod.snd)).map
        (chainOfPath (.ofEvents events) label) := by
  have hevents := Trace.events_ofEvents inTime
  have fit : (Trace.ofEvents events).KindsFit :=
    Trace.kindsFit_of_length_le (by rwa [hevents])
  rw [find_eq_map_occurrences htokens separated fit, Trace.placed, hevents, List.map_map]
  rfl

/-- The chains of a part of a trace are the occurrences among its events at their positions in the
whole trace. -/
theorem map_occurrences_placedWhere {pattern : Pattern} {name : String} {edge : Edge}
    {following : List Token} (htokens : pattern.tokens = .named name edge :: following)
    (separated : Pattern.Separated pattern.tokens) (ordered : Trace.InTime trace.order.toList)
    (fit : trace.KindsFit) (label : String) (rule : RepeatRule) :
    ((occurrences rule pattern.tokens ∅ (trace.placedWhere keep)).map
        fun taken => chainOfPath trace label (taken.map Prod.snd)) =
      (find (trace.part keep) pattern label rule).map (Chain.carried (trace.idsWhere keep)) := by
  have hlt : ∀ placed ∈ (trace.part keep).placed, placed.2 < (trace.keptWhere keep).length := by
    intro placed hplaced
    rw [← Trace.length_placed_part ordered]
    exact Trace.position_lt _ hplaced
  have hwhole : occurrences rule (.named name edge :: following) ∅ (trace.placedWhere keep) =
      (occurrences rule (.named name edge :: following) ∅ (trace.part keep).placed).map
        (·.map (renumber (trace.wholePosition keep))) := by
    rw [← Trace.map_placed_part ordered]
    refine occurrences_map (fun a ha b hb => Trace.wholePosition_inj (hlt a ha) (hlt b hb)) ?_
    simp
  rw [find_eq_map_occurrences htokens separated (kindsFit_part fit ordered), htokens, hwhole,
    List.map_map, List.map_map]
  refine List.map_congr_left fun taken htaken => ?_
  have hpath : ∀ i ∈ taken.map Prod.snd, i < (trace.keptWhere keep).length := by
    intro i hi
    obtain ⟨placed, hplaced, rfl⟩ := List.mem_map.1 hi
    exact hlt placed ((of_mem_occurrences htaken).1.subset hplaced)
  show chainOfPath trace label ((taken.map (renumber _)).map Prod.snd) = Chain.carried _ _
  rw [carried_chainOfPath ordered label hpath, List.map_map, List.map_map]
  rfl

end Matching

end EventChains
