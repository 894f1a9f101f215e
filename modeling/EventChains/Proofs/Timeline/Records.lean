import EventChains.Timeline
import EventChains.Proofs.CompiledPattern

/-!
# Records of a timeline

A timeline exists exactly if there are no chains or no events in their process (`records_eq_ok_iff`,
`text_eq_error_iff`). Its records of something in time are those of the events, and then those of
the chains (`filter_isMoment_records`); all others are records of names.
-/

namespace EventChains.Timeline

variable {trace : Trace} {chains : List Chain} {track : ChainTrack}
variable {shown : List TimelineRecord}

/-- A record of something in time, and not of a name. -/
def isMoment (record : TimelineRecord) : Bool :=
  record.code != "M"

theorem isMoment_of_phase {record : TimelineRecord} {phase : Phase} (h : record.code = phase.code) :
    isMoment record = true := by
  rw [isMoment, h]
  cases phase <;> rfl

theorem isMoment_ofEvent (event : Event) : isMoment (.ofEvent event) = true :=
  isMoment_of_phase rfl

theorem code_of_mem_nameRecords {record : TimelineRecord} {hasChains : Bool}
    (h : record ∈ nameRecords trace track hasChains) : record.code = "M" := by
  rw [nameRecords, List.mem_append, List.mem_append] at h
  rcases h with (hprocess | hchains) | hthread
  · obtain ⟨entry, -, rfl⟩ := List.mem_map.1 hprocess
    rfl
  · grind [TimelineRecord.ofProcessName, TimelineRecord.ofName]
  · obtain ⟨entry, -, rfl⟩ := List.mem_map.1 hthread
    rfl

/-- Records of names are no records of something in time. -/
theorem filter_isMoment_nameRecords (trace : Trace) (track : ChainTrack) (hasChains : Bool) :
    (nameRecords trace track hasChains).filter isMoment = [] := by
  refine List.filter_eq_nil_iff.2 fun record hrecord => ?_
  rw [isMoment, code_of_mem_nameRecords hrecord]
  decide

theorem filter_isMoment_events (trace : Trace) :
    (trace.events.map TimelineRecord.ofEvent).filter isMoment =
      trace.events.map TimelineRecord.ofEvent := by
  refine List.filter_eq_self.2 fun record hrecord => ?_
  obtain ⟨event, -, rfl⟩ := List.mem_map.1 hrecord
  exact isMoment_ofEvent event

/-- The records of chains are begins and ends. -/
theorem eq_of_mem_ofChains {record : TimelineRecord}
    (h : record ∈ chains.flatMap (TimelineRecord.ofChain track)) :
    ∃ chain ∈ chains, record = .ofChainEnd track chain.label .spanBegin chain.start ∨
      record = .ofChainEnd track chain.label .spanEnd chain.finish := by
  obtain ⟨chain, hchain, hrecord⟩ := List.mem_flatMap.1 h
  exact ⟨chain, hchain, by simpa [TimelineRecord.ofChain] using hrecord⟩

/-- The records of chains are in the scope of the chains, and have no arguments. -/
theorem of_mem_ofChains {record : TimelineRecord}
    (h : record ∈ chains.flatMap (TimelineRecord.ofChain track)) :
    isMoment record = true ∧ record.scope = track.scope ∧ record.args = [] := by
  obtain ⟨chain, -, rfl | rfl⟩ := eq_of_mem_ofChains h <;> exact ⟨rfl, rfl, rfl⟩

/-- There are records exactly if there are no chains or no events in their process. -/
theorem records_eq_ok_iff :
    records trace chains track = .ok shown ↔
      (chains = [] ∨ trace.hasProcess track.pid = false) ∧
        shown = trace.events.map .ofEvent ++ chains.flatMap (TimelineRecord.ofChain track) ++
          nameRecords trace track !chains.isEmpty := by
  unfold records
  split <;> grind

/-- The records of something in time are those of the events, and then those of the chains. -/
theorem filter_isMoment_records (h : records trace chains track = .ok shown) :
    shown.filter isMoment =
      trace.events.map .ofEvent ++ chains.flatMap (TimelineRecord.ofChain track) := by
  obtain ⟨-, rfl⟩ := records_eq_ok_iff.1 h
  rw [List.filter_append, List.filter_append, filter_isMoment_events, filter_isMoment_nameRecords,
    List.filter_eq_self.2 fun record hrecord => (of_mem_ofChains hrecord).1, List.append_nil]

/-- All other records are those of names. -/
theorem filter_not_isMoment_records (h : records trace chains track = .ok shown) :
    shown.filter (!isMoment ·) = nameRecords trace track !chains.isEmpty := by
  obtain ⟨-, rfl⟩ := records_eq_ok_iff.1 h
  have hevents : (trace.events.map TimelineRecord.ofEvent).filter (!isMoment ·) = [] := by
    refine List.filter_eq_nil_iff.2 fun record hrecord => ?_
    obtain ⟨event, -, rfl⟩ := List.mem_map.1 hrecord
    simp [isMoment_ofEvent]
  rw [List.filter_append, List.filter_append, hevents,
    List.filter_eq_nil_iff.2 fun record hrecord => by simp [(of_mem_ofChains hrecord).1],
    List.filter_eq_self.2 fun record hrecord => by
      simp [isMoment, code_of_mem_nameRecords hrecord]]
  rfl

theorem text_eq_ok_iff {text : String} :
    Timeline.text trace chains track = .ok text ↔
      ∃ shown, records trace chains track = .ok shown ∧ (document shown).pretty = text := by
  rw [Timeline.text, bind_eq_ok_iff]
  simp only [Except.ok.injEq]

theorem text_eq_error_iff {fault : Fault} :
    Timeline.text trace chains track = .error fault ↔
      fault = .usedProcess track.pid ∧ chains ≠ [] ∧ trace.hasProcess track.pid = true := by
  rw [Timeline.text, records]
  split
  · rename_i h
    rw [Bool.and_eq_true, Bool.not_eq_true', List.isEmpty_eq_false_iff] at h
    constructor
    · intro hfault
      cases hfault
      exact ⟨rfl, h⟩
    · rintro ⟨rfl, -⟩
      rfl
  · rename_i h
    rw [Bool.and_eq_true, Bool.not_eq_true', List.isEmpty_eq_false_iff] at h
    exact ⟨fun hfault => by contradiction, fun hused => absurd hused.2 h⟩

end EventChains.Timeline
