import EventChains.Proofs.Timeline.RoundTrip
import EventChains.Proofs.Trace.Arrivals

/-!
# Chains in a timeline

Chains are shown in a process of their own, so they can be told from events: a timeline with chains
can be written exactly if no event runs in that process, and then the items there are those of the
chains, and all others are those of the timeline without chains (`text_keeps_chains_apart`). Names
are left aside, since any process can have one.
-/

namespace EventChains.Timeline

open Json

variable {trace : Trace} {chains : List Chain} {track : ChainTrack}

/-- An item in a process. -/
def inProcess (pid : UInt64) (item : Json) : Bool :=
  item.wordField? "pid" == some pid

/-- The item of one end of a chain. It has `null` for a time that is beyond all numbers in
microseconds. -/
def chainEndItem (track : ChainTrack) (label code : String) (time : Timestamp) : Json :=
  .object [("name", .text label),
    ("ts", if (time.val * 1000).isFinite then .real (time.val * 1000) else .null),
    ("pid", .word track.pid), ("tid", .word track.tid), ("args", .object []), ("ph", .text code)]

/-- The items of a chain are its begin and its end. -/
def chainItems (track : ChainTrack) (chain : Chain) : List Json :=
  [chainEndItem track chain.label "B" chain.start, chainEndItem track chain.label "E" chain.finish]

theorem map_itemOf_ofChains (track : ChainTrack) (chains : List Chain) :
    (chains.flatMap (TimelineRecord.ofChain track)).map itemOf =
      chains.flatMap (chainItems track) := by
  rw [List.map_flatMap]
  rfl

theorem inProcess_itemOf (pid : UInt64) (record : TimelineRecord) :
    inProcess pid (itemOf record) = (record.scope.pid == pid) := by
  obtain ⟨-, -, hpid, -⟩ := field?_itemOf record
  rw [inProcess, wordField?_eq hpid]
  rfl

/-- An event of another process has its item there. -/
theorem inProcess_ofEvent {pid : UInt64} (h : trace.events.any (·.scope.pid == pid) = false)
    {item : Json} (hitem : item ∈ (trace.events.map TimelineRecord.ofEvent).map itemOf) :
    inProcess pid item = false := by
  obtain ⟨record, hrecord, rfl⟩ := List.mem_map.1 hitem
  obtain ⟨event, hevent, rfl⟩ := List.mem_map.1 hrecord
  rw [inProcess_itemOf]
  exact Bool.eq_false_iff.2 (List.any_eq_false.1 h event hevent)

/-- Chains are shown in their own process. -/
theorem inProcess_ofChains {item : Json}
    (hitem : item ∈ (chains.flatMap (TimelineRecord.ofChain track)).map itemOf) :
    inProcess track.pid item = true := by
  obtain ⟨record, hrecord, rfl⟩ := List.mem_map.1 hitem
  rw [inProcess_itemOf, (of_mem_ofChains hrecord).2.1]
  exact beq_self_eq_true _

/-- A timeline cannot be written exactly if there are chains and some event runs in their process.
Where one is written with chains, the items in their process are one begin and one end for each
chain, in the order of the chains, and the items elsewhere are those of the timeline without chains;
the items of names are left aside. Arguments are values that JSON keeps: whole numbers of 64 bits
and finite real ones. -/
theorem text_keeps_chains_apart (built : trace.Built) (chains : List Chain) (track : ChainTrack) :
    (∀ fault, Timeline.text trace chains track = .error fault ↔
      fault = .usedProcess track.pid ∧ chains ≠ [] ∧
        ∃ event ∈ trace.events, event.scope.pid = track.pid) ∧
    ((∀ event ∈ trace.events, areKeptFields event.args = true) →
      ∀ text, Timeline.text trace chains track = .ok text → chains ≠ [] →
        ∃ plainText items plainItems, Timeline.text trace [] track = .ok plainText ∧
          Json.decode? text =
            some (.object [("traceEvents", .list items), ("displayTimeUnit", .text "ms")]) ∧
          Json.decode? plainText =
            some (.object [("traceEvents", .list plainItems), ("displayTimeUnit", .text "ms")]) ∧
          (items.filter isMomentItem).filter (inProcess track.pid) =
            chains.flatMap (chainItems track) ∧
          (items.filter isMomentItem).filter (!inProcess track.pid ·) =
            plainItems.filter isMomentItem) := by
  have hused : trace.hasProcess track.pid = true ↔
      ∃ event ∈ trace.events, event.scope.pid = track.pid := by
    rw [built.stable.hasProcess_eq, List.any_eq_true]
    simp only [beq_iff_eq]
  refine ⟨fun fault => by rw [text_eq_error_iff, hused], fun hargs text htext hchains => ?_⟩
  obtain ⟨shown, hshown, rfl⟩ := text_eq_ok_iff.1 htext
  obtain ⟨plain, hplain⟩ : ∃ plain, records trace [] track = .ok plain :=
    ⟨_, records_eq_ok_iff.2 ⟨Or.inl rfl, rfl⟩⟩
  have hfree : trace.events.any (·.scope.pid == track.pid) = false := by
    rw [← built.stable.hasProcess_eq]
    exact (records_eq_ok_iff.1 hshown).1.resolve_left hchains
  refine ⟨_, shown.map itemOf, plain.map itemOf, text_eq_ok_iff.2 ⟨plain, hplain, rfl⟩,
    decode?_document (areKeptFields_args hshown hargs),
    decode?_document (areKeptFields_args hplain hargs), ?_, ?_⟩
  · rw [filter_isMomentItem_map, filter_isMoment_records hshown, List.map_append,
      List.filter_append,
      List.filter_eq_nil_iff.2 fun item hitem =>
        Bool.eq_false_iff.1 (inProcess_ofEvent hfree hitem),
      List.filter_eq_self.2 fun item hitem => inProcess_ofChains hitem, map_itemOf_ofChains]
    rfl
  · rw [filter_isMomentItem_map, filter_isMoment_records hshown, filter_isMomentItem_map,
      filter_isMoment_records hplain, List.map_append, List.filter_append,
      List.filter_eq_self.2 fun item hitem =>
        Bool.not_eq_eq_eq_not.2 (inProcess_ofEvent hfree hitem),
      List.filter_eq_nil_iff.2 fun item hitem => by simp [inProcess_ofChains hitem],
      List.map_append]
    rfl

/-- Two chains of one label over the same events have two pairs of items, and neither can be shown
in the process of the events. -/
theorem text_keeps_chains_apart_load :
    let chain : Chain := ⟨"loads", [0, 2], .zero, .zero⟩
    Trace.load.Built ∧
      Timeline.text .load [chain, chain] ⟨0, 0, none⟩ = .error (.usedProcess 0) ∧
      (∀ event ∈ Trace.load.events, areKeptFields event.args = true) ∧
      ∃ text items, Timeline.text .load [chain, chain] {} = .ok text ∧
        Json.decode? text =
          some (.object [("traceEvents", .list items), ("displayTimeUnit", .text "ms")]) ∧
        ((items.filter isMomentItem).filter (inProcess 1000)).map (·.textField? "ph") =
          [some "B", some "E", some "B", some "E"] := by
  intro chain
  have hargs : ∀ event ∈ Trace.load.events, areKeptFields event.args = true := by decide +kernel
  obtain ⟨hused, -⟩ := text_keeps_chains_apart Trace.built_load [chain, chain] ⟨0, 0, none⟩
  obtain ⟨-, happart⟩ := text_keeps_chains_apart Trace.built_load [chain, chain] {}
  obtain ⟨text, htext⟩ : ∃ text, Timeline.text .load [chain, chain] {} = .ok text :=
    ⟨_, text_eq_ok_iff.2 ⟨_, records_eq_ok_iff.2 ⟨Or.inr (by decide +kernel), rfl⟩, rfl⟩⟩
  obtain ⟨-, items, -, -, hdecode, -, hpairs, -⟩ := happart hargs text htext (by decide)
  refine ⟨Trace.built_load, (hused _).2 ⟨rfl, by decide, by decide +kernel⟩, hargs, text, items,
    htext, hdecode, ?_⟩
  rw [hpairs]
  rfl

end EventChains.Timeline
