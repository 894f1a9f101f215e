import EventChains.Listing
import EventChains.Log.Basic
import EventChains.Timeline
import EventChains.Proofs.Log
import EventChains.Proofs.Matching.Growth
import EventChains.Proofs.Matching.Parts
import EventChains.Proofs.Matching.Starts

/-!
# The order of arrival does not show

Events may arrive in any order, as long as events of the same time keep theirs: apart from ids, the
trace shows the same (`alike_of_reordered`). A trace is seen through its events in trace order, and
so are its chains; only the ids in a chain tell the orders of arrival apart. For logs this says that
trace lines may be permuted.
-/

namespace EventChains

open Matching

/-- Whether an event is at a time. -/
def Event.isAt (time : Timestamp) (event : Event) : Bool :=
  event.time ≤ time && time ≤ event.time

/-- Two orders of arrival of the same events, in which events of the same time come in the same
order. -/
structure Reordered (first second : List Event) : Prop where
  perm : first.Perm second
  ties : ∀ time, first.filter (Event.isAt time) = second.filter (Event.isAt time)

/-- The positions of the events of a chain in trace order. -/
def Chain.positionsIn (trace : Trace) (chain : Chain) : List Nat :=
  chain.events.map fun id => trace.ids.idxOf id

/-- Two traces show the same apart from ids: as a listing, as a timeline, and in the chains of every
pattern, which have the same positions, listings and timelines. -/
structure Alike (first second : Trace) : Prop where
  listing : Listing.ofTrace first = Listing.ofTrace second
  timeline : ∀ track, Timeline.text first [] track = Timeline.text second [] track
  positions : ∀ pattern label rule,
    (find first pattern label rule).map (Chain.positionsIn first) =
      (find second pattern label rule).map (Chain.positionsIn second)
  chainTimeline : ∀ pattern label rule track,
    Timeline.text first (find first pattern label rule) track =
      Timeline.text second (find second pattern label rule) track
  chainListing : ∀ pattern label rule,
    Listing.ofChains first (find first pattern label rule) =
      Listing.ofChains second (find second pattern label rule)
  styled : ∀ pattern label rule,
    Listing.styled first (find first pattern label rule) =
      Listing.styled second (find second pattern label rule)

/-- Events at different times that arrive one after the other may swap. -/
theorem Reordered.swap (before : List Event) {a b : Event} (after : List Event)
    (h : ¬ (a.time ≤ b.time ∧ b.time ≤ a.time)) :
    Reordered (before ++ a :: b :: after) (before ++ b :: a :: after) where
  perm := (List.Perm.swap b a after).append_left before
  ties := by
    intro time
    rw [List.filter_append, List.filter_append]
    refine congrArg _ ?_
    by_cases ha : a.isAt time = true
    · by_cases hb : b.isAt time = true
      · rw [Event.isAt, Bool.and_eq_true, decide_eq_true_eq, decide_eq_true_eq] at ha hb
        exact absurd ⟨Timestamp.le_trans ha.1 hb.2, Timestamp.le_trans hb.1 ha.2⟩ h
      · simp only [List.filter_cons, ha, hb]
        rfl
    · simp only [List.filter_cons, ha]
      rfl

/-- Reordered events are sorted to the same list. -/
theorem Reordered.mergeSort_eq {first second : List Event} (h : Reordered first second) :
    first.mergeSort Trace.notLater = second.mergeSort Trace.notLater := by
  have trans (a b c : Event) (hab : Trace.notLater a b = true) (hbc : Trace.notLater b c = true) :
      Trace.notLater a c = true :=
    Trace.notLater_iff.2 (Timestamp.le_trans (Trace.notLater_iff.1 hab) (Trace.notLater_iff.1 hbc))
  have total (a b : Event) : (Trace.notLater a b || Trace.notLater b a) = true := by
    rw [Bool.or_eq_true, Trace.notLater_iff, Trace.notLater_iff]
    exact Timestamp.le_total _ _
  refine mergeSort_eq_of_filter_ties trans total fun a => ?_
  have hties : EventChains.ties Trace.notLater a = Event.isAt a.time := by
    funext b
    exact Bool.and_comm _ _
  rw [hties]
  exact h.ties a.time

namespace Matching

variable {trace first second : Trace} {path : List Nat}

/-! ## What is seen of a chain -/

theorem map_event_filterMap_order (trace : Trace) (path : List Nat) :
    (path.filterMap (trace.order[·]?)).map (·.event) = eventsAt trace path := by
  rw [eventsAt, List.map_filterMap]
  refine List.filterMap_congr fun position _ => ?_
  rw [Trace.events, List.getElem?_map, Array.getElem?_toList]

theorem label_chainOfPath (trace : Trace) (label : String) (path : List Nat) :
    (chainOfPath trace label path).label = label :=
  rfl

/-- A chain starts with the first event at its positions. -/
theorem start_chainOfPath_eq (trace : Trace) (label : String) (path : List Nat) :
    (chainOfPath trace label path).start =
      ((eventsAt trace path).head?.map (·.time)).getD .zero := by
  rw [← map_event_filterMap_order, chainOfPath, ofEntries_eq]

/-- A chain ends with the last event at its positions. -/
theorem finish_chainOfPath_eq (trace : Trace) (label : String) (path : List Nat) :
    (chainOfPath trace label path).finish =
      ((eventsAt trace path).getLast?.map (·.time)).getD .zero := by
  rw [← map_event_filterMap_order, chainOfPath, ofEntries_eq]

/-- A chain has as many events as there are at its positions. -/
theorem size_chainOfPath (trace : Trace) (label : String) (path : List Nat) :
    (chainOfPath trace label path).size = (eventsAt trace path).length := by
  rw [← map_event_filterMap_order, List.length_map]
  exact List.length_map _

/-- The events of a chain are those at its positions. -/
theorem chainEvents_chainOfPath (stable : trace.Stable) (label : String) (path : List Nat) :
    Listing.chainEvents trace (chainOfPath trace label path) = eventsAt trace path := by
  rw [Listing.chainEvents, events_chainOfPath, List.filterMap_filterMap, eventsAt]
  refine List.filterMap_congr fun position _ => ?_
  rw [Trace.ids, Trace.events, List.getElem?_map, List.getElem?_map]
  cases h : trace.order.toList[position]? with
  | none => rfl
  | some entry => exact stable.get?_eq (List.mem_of_getElem? h)

/-- A chain has the positions of its path. -/
theorem positionsIn_chainOfPath (ordered : trace.Ordered) (label : String)
    (h : ∀ i ∈ path, i < trace.order.size) :
    (chainOfPath trace label path).positionsIn trace = path := by
  rw [Chain.positionsIn, events_chainOfPath, List.map_filterMap]
  refine (List.filterMap_congr fun position hposition => ?_).trans List.filterMap_some
  have hlt : position < trace.ids.length := by simpa [Trace.ids] using h position hposition
  rw [List.getElem?_eq_getElem hlt, Option.map_some, ordered.ids_nodup.idxOf_getElem]

theorem positionsIn_find (ordered : trace.Ordered) (pattern : Pattern) (label : String)
    (rule : RepeatRule) :
    (find trace pattern label rule).map (Chain.positionsIn trace) =
      (Course.ofTrace trace).find pattern rule := by
  show (((Course.ofTrace trace).find pattern rule).map (chainOfPath trace label)).map _ = _
  rw [List.map_map]
  refine (List.map_congr_left fun path hpath => ?_).trans (List.map_id _)
  exact positionsIn_chainOfPath ordered label fun i hi => (foundPath_of_mem_find hpath).lt_size hi

/-! ## Traces with the same events in order -/

variable (hfirst : first.Stable) (hsecond : second.Stable) (hevents : first.events = second.events)
include hevents

/-- The same positions are found where the events in trace order are the same. -/
theorem find_course_eq (pattern : Pattern) (rule : RepeatRule) :
    (Course.ofTrace first).find pattern rule = (Course.ofTrace second).find pattern rule := by
  rw [Course.ofTrace, Course.ofTrace, hevents]

theorem eventsAt_eq (path : List Nat) : eventsAt first path = eventsAt second path := by
  rw [eventsAt, eventsAt, hevents]

theorem ofChain_eq (track : ChainTrack) (label : String) (path : List Nat) :
    TimelineRecord.ofChain track (chainOfPath first label path) =
      TimelineRecord.ofChain track (chainOfPath second label path) := by
  simp only [TimelineRecord.ofChain, label_chainOfPath, start_chainOfPath_eq,
    finish_chainOfPath_eq, eventsAt_eq hevents]

include hfirst hsecond

/-- Traces with the same events in order and the same names have the same timeline with chains at
the same positions. -/
theorem timeline_eq (hprocess : first.processNames = second.processNames)
    (hthread : first.threadNames = second.threadNames) (label : String) (paths : List (List Nat))
    (track : ChainTrack) :
    Timeline.text first (paths.map (chainOfPath first label)) track =
      Timeline.text second (paths.map (chainOfPath second label)) track := by
  have hchains : (paths.map (chainOfPath first label)).flatMap (TimelineRecord.ofChain track) =
      (paths.map (chainOfPath second label)).flatMap (TimelineRecord.ofChain track) := by
    rw [List.flatMap_map, List.flatMap_map]
    exact List.flatMap_congr fun path _ => ofChain_eq hevents track label path
  have hrecords : Timeline.records first (paths.map (chainOfPath first label)) track =
      Timeline.records second (paths.map (chainOfPath second label)) track := by
    simp only [Timeline.records, Timeline.nameRecords, List.isEmpty_map, hfirst.hasProcess_eq,
      hsecond.hasProcess_eq, hevents, hprocess, hthread, hchains]
  rw [Timeline.text, Timeline.text, hrecords]

theorem ofChains_eq (label : String) (paths : List (List Nat)) :
    Listing.ofChains first (paths.map (chainOfPath first label)) =
      Listing.ofChains second (paths.map (chainOfPath second label)) := by
  rw [Listing.ofChains, Listing.ofChains, List.flatMap_map, List.flatMap_map]
  refine congrArg Listing.ofLines (List.flatMap_congr fun path _ => ?_)
  simp only [Listing.chainLines, Listing.chainLine, chainEvents_chainOfPath hfirst,
    chainEvents_chainOfPath hsecond, label_chainOfPath, size_chainOfPath, start_chainOfPath_eq,
    finish_chainOfPath_eq, eventsAt_eq hevents]

theorem styled_eq (label : String) (paths : List (List Nat)) :
    Listing.styled first (paths.map (chainOfPath first label)) =
      Listing.styled second (paths.map (chainOfPath second label)) := by
  rw [Listing.styled, Listing.styled, List.flatMap_map, List.flatMap_map]
  refine congrArg Listing.ofLines (List.flatMap_congr fun path _ => ?_)
  simp only [Listing.styledChainLine, chainEvents_chainOfPath hfirst,
    chainEvents_chainOfPath hsecond, label_chainOfPath, size_chainOfPath, start_chainOfPath_eq,
    finish_chainOfPath_eq, eventsAt_eq hevents]

/-- Traces with the same events in order and the same names show the same. -/
theorem alike_of_events_eq (hprocess : first.processNames = second.processNames)
    (hthread : first.threadNames = second.threadNames) : Alike first second where
  listing := by rw [Listing.ofTrace, Listing.ofTrace, hevents]
  timeline := timeline_eq hfirst hsecond hevents hprocess hthread "" []
  positions := by
    intro pattern label rule
    rw [positionsIn_find hfirst.ordered, positionsIn_find hsecond.ordered, find_course_eq hevents]
  chainTimeline := by
    intro pattern label rule
    show ∀ track, Timeline.text first (((Course.ofTrace first).find pattern rule).map _) track =
      Timeline.text second (((Course.ofTrace second).find pattern rule).map _) track
    rw [find_course_eq hevents]
    exact timeline_eq hfirst hsecond hevents hprocess hthread label _
  chainListing := by
    intro pattern label rule
    show Listing.ofChains first (((Course.ofTrace first).find pattern rule).map _) =
      Listing.ofChains second (((Course.ofTrace second).find pattern rule).map _)
    rw [find_course_eq hevents]
    exact ofChains_eq hfirst hsecond hevents label _
  styled := by
    intro pattern label rule
    show Listing.styled first (((Course.ofTrace first).find pattern rule).map _) =
      Listing.styled second (((Course.ofTrace second).find pattern rule).map _)
    rw [find_course_eq hevents]
    exact styled_eq hfirst hsecond hevents label _

end Matching

/-! ## Orders of arrival -/

/-- Runs of calls show the same if they insert the same events, but for the order of events at
different times, and give the same names. -/
theorem alike_run {calls others : List Trace.Call}
    (h : Reordered (Trace.insertions calls) (Trace.insertions others))
    (hprocess : (Trace.run calls).processNames = (Trace.run others).processNames)
    (hthread : (Trace.run calls).threadNames = (Trace.run others).threadNames) :
    Alike (Trace.run calls) (Trace.run others) := by
  have hfirst := (Trace.built_run calls).stable
  have hsecond := (Trace.built_run others).stable
  refine alike_of_events_eq hfirst hsecond ?_ hprocess hthread
  rw [hfirst.events_eq, hsecond.events_eq, Trace.toList_arrivals_run, Trace.toList_arrivals_run,
    h.mergeSort_eq]

/-- Adding events names nothing. -/
theorem names_addAll (trace : Trace) (events : List Event) :
    (trace.addAll events).processNames = trace.processNames ∧
      (trace.addAll events).threadNames = trace.threadNames := by
  induction events generalizing trace with
  | nil => exact ⟨rfl, rfl⟩
  | cons event rest ih => exact ih (trace.add event)

/-- Traces of reordered events show the same. -/
theorem Reordered.alike_ofEvents {first second : List Event} (h : Reordered first second) :
    Alike (.ofEvents first) (.ofEvents second) := by
  have hfirst := names_addAll .empty first
  have hsecond := names_addAll .empty second
  have hruns :
      Reordered (Trace.insertions [.addAll first]) (Trace.insertions [.addAll second]) := by
    show Reordered (first ++ []) (second ++ [])
    rwa [List.append_nil, List.append_nil]
  exact alike_run hruns (hfirst.1.trans hsecond.1.symm) (hfirst.2.trans hsecond.2.symm)

/-- The order of arrival of events shows in ids only, as long as events of the same time keep
theirs. This holds for traces of these events, for runs of calls that insert them, and for logs:
permuted trace lines can be read as well, and what they give shows the same. -/
theorem alike_of_reordered {first second : List Event} (h : Reordered first second) :
    Alike (.ofEvents first) (.ofEvents second) ∧
    (∀ calls others, Trace.insertions calls = first → Trace.insertions others = second →
      (Trace.run calls).processNames = (Trace.run others).processNames →
      (Trace.run calls).threadNames = (Trace.run others).threadNames →
      Alike (Trace.run calls) (Trace.run others)) ∧
    ∀ log other, Log.readEvents log = .ok first →
      (Log.traceLines log).Perm (Log.traceLines other) →
      (Log.traceLines other).filterMap Log.eventOf? = second →
      ∃ trace later, Log.readTrace log = .ok trace ∧ Log.readTrace other = .ok later ∧
        Alike trace later := by
  refine ⟨h.alike_ofEvents, ?_, ?_⟩
  · rintro calls others rfl rfl hprocess hthread
    exact alike_run h hprocess hthread
  · intro log other hlog hperm hother
    have hread : Log.readEvents other = .ok second := by
      rw [← hother]
      exact Log.readEvents_of_perm hperm hlog
    exact ⟨.ofEvents first, .ofEvents second, Log.readTrace_eq_ok hlog, Log.readTrace_eq_ok hread,
      h.alike_ofEvents⟩

/-- A trace line of a load that starts. -/
def startLine : List Char := "[trace] name=load ph=B ts=1".toList

/-- A trace line of a load that is finished. -/
def finishLine : List Char := "[trace] name=load ph=E ts=2".toList

/-- A log that tells of a load in order. -/
def orderly : String :=
  "[trace] name=load ph=B ts=1\nloading\n[trace] name=load ph=E ts=2"

/-- A log that tells of the end of a load first. -/
def endFirst : String :=
  "[trace] name=load ph=E ts=2\n[trace] name=load ph=B ts=1\nloaded"

/-- A load shows the same whether a log tells of it in order or of its end first, though the ids of
its events differ. -/
theorem alike_of_reordered_endFirst :
    ∃ trace later, Log.readTrace orderly = .ok trace ∧ Log.readTrace endFirst = .ok later ∧
      trace.ids = [0, 1] ∧ later.ids = [1, 0] ∧ Alike trace later := by
  have hlines : Log.traceLines orderly = [startLine, finishLine] := by decide +kernel
  have hothers : Log.traceLines endFirst = [finishLine, startLine] := by decide +kernel
  have htimes : (Log.eventOf? startLine).any (fun start =>
      (Log.eventOf? finishLine).any fun finish => !decide (finish.time ≤ start.time)) = true := by
    decide +kernel
  obtain ⟨start, hstart, htimes⟩ := (Option.any_eq_true _ _).1 htimes
  obtain ⟨finish, hfinish, htimes⟩ := (Option.any_eq_true _ _).1 htimes
  have hread : Log.readEvents orderly = .ok [start, finish] := by
    rw [Log.readEvents_eq_ok_iff, hlines]
    simp [hstart, hfinish]
  have hreordered : Reordered [start, finish] [finish, start] :=
    Reordered.swap [] [] fun h => by simp [h.2] at htimes
  have hperm : (Log.traceLines orderly).Perm (Log.traceLines endFirst) := by
    rw [hlines, hothers]
    exact List.Perm.swap _ _ _
  have hevents : (Log.traceLines endFirst).filterMap Log.eventOf? = [finish, start] := by
    rw [hothers]
    simp [hstart, hfinish]
  obtain ⟨trace, later, htrace, hlater, halike⟩ :=
    (alike_of_reordered hreordered).2.2 orderly endFirst hread hperm hevents
  have hids : (Log.readTrace orderly).toOption.map Trace.ids = some [0, 1] := by decide +kernel
  have hlaterIds : (Log.readTrace endFirst).toOption.map Trace.ids = some [1, 0] := by
    decide +kernel
  rw [htrace] at hids
  rw [hlater] at hlaterIds
  exact ⟨trace, later, htrace, hlater, Option.some.inj hids, Option.some.inj hlaterIds, halike⟩

end EventChains
