import EventChains.Proofs.ArrivalOrder
import EventChains.Proofs.Findings
import EventChains.Proofs.Matching.Chains
import EventChains.Proofs.Matching.Growth
import EventChains.Proofs.Timeline.Records
import EventChains.Proofs.Trace.Part

/-!
# Chains as spans

A chain can be turned into the two events of a span, and it can be shown in a timeline as it is.
Both ways say the same (`records_of_asSpan`): the two records of the chain are the records of the
two events in the scope of the chains, in the same order. The events can be made exactly if the
chain has a label.
-/

namespace EventChains

open Matching

variable {trace : Trace} {chain : Chain} {opening closing : Event}

/-- A chain that a search returns, or that findings hold under the label that they have given it
last. -/
inductive Chain.Returned (trace : Trace) (chain : Chain) : Prop where
  | find {pattern : Pattern} {label : String} {rule : RepeatRule}
      (h : chain ∈ find trace pattern label rule)
  | findings {rule : RepeatRule} {findings : Findings} {found : List Chain}
      (searched : Findings.Searched trace rule findings found) (h : chain ∈ findings.chains)

namespace Chain

theorem Returned.found (ordered : trace.Ordered) (returned : chain.Returned trace) :
    Found trace chain := by
  cases returned with
  | find h => exact found_of_mem_find h
  | findings searched h => exact (searched.keeps ordered).sound.found chain h

/-- A chain that has been found does not end before it starts. -/
theorem start_le_finish_of_found (ordered : trace.Ordered) (found : Found trace chain) :
    chain.start ≤ chain.finish := by
  obtain ⟨entries, -, hsublist, hchain⟩ := found.exists_entries
  rw [hchain]
  exact start_le_finish_ofEntries chain.label (ordered.inTime.sublist hsublist)

/-- The span of a chain is a begin and an end with its label, at its start and its finish. It can be
made exactly if the chain has a label. -/
theorem asSpan_eq_ok_iff : chain.asSpan = .ok (opening, closing) ↔
    ∃ h : chain.label ≠ "",
      opening = ⟨chain.label, .spanBegin, chain.start, {}, none, [], h⟩ ∧
      closing = ⟨chain.label, .spanEnd, chain.finish, {}, none, [], h⟩ := by
  by_cases h : chain.label = ""
  · have hfault : chain.asSpan = .error .emptyName := by
      rw [asSpan, h]
      rfl
    rw [hfault]
    exact ⟨fun hok => by contradiction, fun ⟨hlabel, _⟩ => absurd h hlabel⟩
  · have hspan : chain.asSpan = .ok (⟨chain.label, .spanBegin, chain.start, {}, none, [], h⟩,
        ⟨chain.label, .spanEnd, chain.finish, {}, none, [], h⟩) := by
      rw [asSpan, Event.make_val h, Event.make_val h]
      rfl
    rw [hspan, Except.ok.injEq, Prod.mk.injEq, eq_comm, eq_comm (b := closing)]
    exact ⟨fun heq => ⟨h, heq⟩, fun ⟨_, heq⟩ => heq⟩

end Chain

namespace Timeline

variable {track : ChainTrack} {chains before after : List Chain} {shown : List TimelineRecord}

/-- The records of a chain are those of the events of its span, on the track of the chains. -/
theorem map_ofEvent_span (h : chain.asSpan = .ok (opening, closing)) :
    [opening.inScope track.scope, closing.inScope track.scope].map TimelineRecord.ofEvent =
      TimelineRecord.ofChain track chain := by
  obtain ⟨_, rfl, rfl⟩ := Chain.asSpan_eq_ok_iff.1 h
  rfl

/-- A timeline of events without names and chains has the records of the events. -/
theorem records_ofEvents {events : List Event} (inTime : Trace.EventsInTime events)
    (track : ChainTrack) :
    records (.ofEvents events) [] track = .ok (events.map TimelineRecord.ofEvent) := by
  have hnames : nameRecords (.ofEvents events) track false = [] := by
    obtain ⟨hprocesses, hthreads⟩ := names_addAll .empty events
    rw [nameRecords, Trace.ofEvents, hprocesses, hthreads]
    cases track.processName <;> rfl
  refine records_eq_ok_iff.2 ⟨Or.inl rfl, ?_⟩
  rw [Trace.events_ofEvents inTime, List.flatMap_nil, List.append_nil, List.isEmpty_nil,
    Bool.not_true, hnames, List.append_nil]

theorem length_ofChains (chains : List Chain) (track : ChainTrack) :
    (chains.flatMap (TimelineRecord.ofChain track)).length = 2 * chains.length := by
  induction chains with
  | nil => rfl
  | cons chain rest ih =>
      rw [List.flatMap_cons, List.length_append, ih, List.length_cons, TimelineRecord.ofChain]
      simp only [List.length_cons, List.length_nil]
      omega

/-- The records of the chains follow those of the events, two for each chain. -/
theorem records_at (h : records trace (before ++ chain :: after) track = .ok shown) :
    (shown.drop (trace.events.length + 2 * before.length)).take 2 =
      TimelineRecord.ofChain track chain := by
  obtain ⟨-, rfl⟩ := records_eq_ok_iff.1 h
  have hlength : (trace.events.map TimelineRecord.ofEvent ++
      before.flatMap (TimelineRecord.ofChain track)).length =
        trace.events.length + 2 * before.length := by
    rw [List.length_append, List.length_map, length_ofChains]
  rw [List.flatMap_append, List.flatMap_cons, ← List.append_assoc, List.append_assoc,
    List.drop_left' hlength, List.append_assoc]
  exact List.take_left' rfl

/-- A chain has a span exactly if it has a label. Where it is shown in a timeline, whatever other
chains are shown with it, it has two records, a begin and an end after those of the events and of
the chains before it. A timeline of the two events of its span, moved to the track of the chains,
has a record for each of them, and these are the same two records. -/
theorem records_of_asSpan (built : trace.Built) (returned : chain.Returned trace) :
    ((∃ opening closing, chain.asSpan = .ok (opening, closing)) ↔ chain.label ≠ "") ∧
    ∀ opening closing, chain.asSpan = .ok (opening, closing) →
      ∀ track : ChainTrack, (∀ event ∈ trace.events, event.scope.pid ≠ track.pid) →
        ∀ (before after : List Chain) (other : ChainTrack), ∃ shown span,
          records trace (before ++ chain :: after) track = .ok shown ∧
          (shown.drop (trace.events.length + 2 * before.length)).take 2 =
            TimelineRecord.ofChain track chain ∧
          records (.ofEvents [opening.inScope track.scope, closing.inScope track.scope]) [] other =
            .ok span ∧
          span = [.ofEvent (opening.inScope track.scope), .ofEvent (closing.inScope track.scope)] ∧
          TimelineRecord.ofChain track chain = span := by
  refine ⟨⟨fun ⟨_, _, h⟩ => (Chain.asSpan_eq_ok_iff.1 h).1,
    fun h => ⟨_, _, Chain.asSpan_eq_ok_iff.2 ⟨h, rfl, rfl⟩⟩⟩, ?_⟩
  intro opening closing hspan track hfree before after other
  have hunused : trace.hasProcess track.pid = false := by
    rw [built.stable.hasProcess_eq, List.any_eq_false]
    simpa only [beq_iff_eq] using hfree
  obtain ⟨shown, hshown⟩ : ∃ shown, records trace (before ++ chain :: after) track = .ok shown :=
    ⟨_, records_eq_ok_iff.2 ⟨Or.inr hunused, rfl⟩⟩
  -- the store keeps the begin before the end, as the chain does not end before it starts
  have inTime : Trace.EventsInTime
      [opening.inScope track.scope, closing.inScope track.scope] := by
    obtain ⟨_, rfl, rfl⟩ := Chain.asSpan_eq_ok_iff.1 hspan
    exact List.pairwise_pair.2
      (Chain.start_le_finish_of_found built.ordered (returned.found built.ordered))
  exact ⟨shown, _, hshown, records_at hshown, records_ofEvents inTime other, rfl,
    (map_ofEvent_span hspan).symm⟩

/-- A load that has been found is shown by the same two records in both ways, also as the second of
two chains. -/
theorem records_of_asSpan_load :
    let chain := chainOfPath .load "loads" [0, 1, 2]
    Trace.load.Built ∧ chain.Returned .load ∧
      (∀ event ∈ Trace.load.events, event.scope.pid ≠ 7) ∧
      ∃ opening closing shown span, chain.asSpan = .ok (opening, closing) ∧
        records .load [chain, chain] ⟨7, 1, none⟩ = .ok shown ∧
        records (.ofEvents [opening.inScope ⟨7, 1⟩, closing.inScope ⟨7, 1⟩]) [] {} = .ok span ∧
        span.map (·.code) = ["B", "E"] ∧ (shown.drop 5).take 2 = span := by
  intro chain
  have returned : chain.Returned .load :=
    .find (List.mem_map_of_mem (load_mem_find .noRepeat))
  have hfree : ∀ event ∈ Trace.load.events, event.scope.pid ≠ 7 := by decide +kernel
  obtain ⟨hlabel, hrecords⟩ := records_of_asSpan Trace.built_load returned
  obtain ⟨opening, closing, hspan⟩ := hlabel.2 (by decide)
  obtain ⟨shown, span, hshown, hslice, hpair, _, hsame⟩ :=
    hrecords opening closing hspan ⟨7, 1, none⟩ hfree [chain] [] {}
  have hlength : Trace.load.events.length = 3 := by decide +kernel
  rw [hlength, hsame] at hslice
  exact ⟨Trace.built_load, returned, hfree, opening, closing, shown, span, hspan, hshown, hpair,
    hsame ▸ rfl, hslice⟩

end Timeline

end EventChains
