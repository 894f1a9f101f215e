import EventChains.Proofs.CompiledPattern
import EventChains.Proofs.Matching.Crossings

/-!
# Chains along links

A call of `addFlow` links two events by a flow, and all flows with one name have one number. So a
chain in a trace whose flow events all come from such calls changes scopes only along links of one
name (`find_crosses_by_links`). It may begin a link and leave by another one of the same name that
ends first: `not_crossesByOwnLinks` has such a chain.
-/

namespace EventChains

open Matching

namespace Trace

/-- A flow that a call has added: its name and the ids of its two events. -/
structure Link where
  name : String
  start : Nat
  finish : Nat
  deriving DecidableEq

/-- The link that a call adds. A flow that is refused is no link. -/
def linked (trace : Trace) : Call → Option Link
  | .addFlow name source target =>
      match (trace.addFlow name source target).2 with
      | .ok (start, finish) => some ⟨name, start, finish⟩
      | .error _ => none
  | _ => none

/-- The links that some calls add, in order. -/
def linkedAll : Trace → List Call → List Link
  | _, [] => []
  | trace, call :: rest => (trace.linked call).toList ++ linkedAll (trace.perform call) rest

/-- The links that some calls add to the empty trace. -/
def links (calls : List Call) : List Link :=
  empty.linkedAll calls

/-- Whether a call is given no flow events. -/
def Call.AddsNoFlow : Call → Prop
  | .add event => event.phase.isFlow = false
  | .addAll events => ∀ event ∈ events, event.phase.isFlow = false
  | _ => True

/-- What tells the flows with a name from others. -/
def flowKey (trace : Trace) (name : String) : FlowKey :=
  ⟨name, some (trace.flowNumber name)⟩

/-- A trace has the two events of a link under their ids. -/
structure HasLink (trace : Trace) (link : Link) : Prop where
  named : link.name ∈ trace.flowNames
  begins : ∃ event, trace.get? link.start = some event ∧ event.Begins (trace.flowKey link.name)
  ends : ∃ event, trace.get? link.finish = some event ∧ event.Ends (trace.flowKey link.name)

/-- A trace has all of some links, and each of its flow events is one of theirs. -/
structure Linked (trace : Trace) (links : List Link) : Prop where
  hasLink : ∀ link ∈ links, trace.HasLink link
  covers : ∀ id event, trace.get? id = some event → event.phase.isFlow = true →
    ∃ link ∈ links, id = link.start ∨ id = link.finish

variable {trace later : Trace} {links : List Link} {link : Link} {name : String} {event : Event}

/-- A link stays in a growing trace. -/
theorem HasLink.of_grows (h : trace.HasLink link) (grows : trace.Grows later) :
    later.HasLink link := by
  have hkey : later.flowKey link.name = trace.flowKey link.name := by
    rw [flowKey, grows.flowNumber_eq h.named, flowKey]
  obtain ⟨start, hstart, hbegins⟩ := h.begins
  obtain ⟨finish, hfinish, hends⟩ := h.ends
  refine ⟨grows.flowNames.subset h.named, ⟨start, grows.get?_eq hstart, ?_⟩, finish,
    grows.get?_eq hfinish, ?_⟩
  · rwa [hkey]
  · rwa [hkey]

/-- The begin of a flow is the start of a link. -/
theorem Linked.exists_start (linked : trace.Linked links) {id : Nat}
    (hevent : trace.get? id = some event) (hphase : event.phase = .flowBegin) :
    ∃ link ∈ links, link.start = id ∧ event.flowKey = trace.flowKey link.name := by
  obtain ⟨link, hlink, rfl | rfl⟩ := linked.covers id event hevent (by rw [hphase]; rfl)
  · obtain ⟨start, hstart, hbegins⟩ := (linked.hasLink link hlink).begins
    cases hevent.symm.trans hstart
    exact ⟨link, hlink, rfl, hbegins.2⟩
  · obtain ⟨finish, hfinish, hends⟩ := (linked.hasLink link hlink).ends
    cases hevent.symm.trans hfinish
    cases hphase.symm.trans hends.1

/-- The end of a flow is the finish of a link. -/
theorem Linked.exists_finish (linked : trace.Linked links) {id : Nat}
    (hevent : trace.get? id = some event) (hphase : event.phase = .flowEnd) :
    ∃ link ∈ links, link.finish = id ∧ event.flowKey = trace.flowKey link.name := by
  obtain ⟨link, hlink, rfl | rfl⟩ := linked.covers id event hevent (by rw [hphase]; rfl)
  · obtain ⟨start, hstart, hbegins⟩ := (linked.hasLink link hlink).begins
    cases hevent.symm.trans hstart
    cases hphase.symm.trans hbegins.1
  · obtain ⟨finish, hfinish, hends⟩ := (linked.hasLink link hlink).ends
    cases hevent.symm.trans hfinish
    exact ⟨link, hlink, rfl, hends.2⟩

/-! ## Calls keep the links -/

/-- What a trace has after an addition, it had before, or it is the event added. -/
theorem get?_add_cases {id : Nat} {found : Event}
    (h : (trace.add event).get? id = some found) :
    trace.get? id = some found ∨ (id = trace.size ∧ found = event) := by
  rw [get?, arrivals_add, Array.getElem?_push] at h
  split at h
  · exact Or.inr ⟨by assumption, (Option.some.inj h).symm⟩
  · exact Or.inl h

/-- Adding an event that belongs to no flow keeps the links. -/
theorem Linked.add (linked : trace.Linked links) (hflow : event.phase.isFlow = false) :
    (trace.add event).Linked links where
  hasLink := fun link hlink => (linked.hasLink link hlink).of_grows (trace.grows_add event)
  covers := by
    intro id found hfound hphase
    rcases get?_add_cases hfound with hfound | ⟨_, rfl⟩
    · exact linked.covers id found hfound hphase
    · rw [hflow] at hphase
      contradiction

theorem Linked.addAll {events : List Event} (linked : trace.Linked links)
    (hflow : ∀ event ∈ events, event.phase.isFlow = false) :
    (trace.addAll events).Linked links := by
  induction events generalizing trace with
  | nil => exact linked
  | cons event rest ih =>
      obtain ⟨hevent, hrest⟩ := List.forall_mem_cons.1 hflow
      exact ih (linked.add hevent) hrest

/-- Giving a flow its number keeps the links. -/
theorem Linked.registerFlow (linked : trace.Linked links) (name : String) :
    (trace.registerFlow name).Linked links where
  hasLink := fun link hlink => (linked.hasLink link hlink).of_grows (trace.grows_registerFlow name)
  covers := by
    intro id found hfound
    rw [get?, (trace.registerFlow_eq name).1] at hfound
    exact linked.covers id found hfound

theorem mem_flowNames_registerFlow (trace : Trace) (name : String) :
    name ∈ (trace.registerFlow name).flowNames := by
  unfold Trace.registerFlow
  split
  · assumption
  · simp

/-- A flow has the same number before and after its name is registered: a new name gets the next
number. -/
theorem flowNumber_registerFlow (trace : Trace) (name : String) :
    (trace.registerFlow name).flowNumber name = trace.flowNumber name := by
  unfold Trace.registerFlow
  split
  · rfl
  · rename_i hname
    simp [flowNumber, List.idxOf_append_of_notMem hname, List.idxOf_eq_length hname]

/-- The two events of a flow begin it and end it. -/
theorem begins_ends_of_flowEvents {origin goal start finish : Event} {number : UInt64}
    (h : flowEvents name origin goal number = .ok (start, finish)) :
    start.Begins ⟨name, some number⟩ ∧ finish.Ends ⟨name, some number⟩ := by
  obtain ⟨opening, hopening, h⟩ := bind_eq_ok_iff.1 h
  obtain ⟨closing, hclosing, h⟩ := bind_eq_ok_iff.1 h
  obtain ⟨_, _, _, rfl⟩ := Event.make_eq_ok_iff.1 hopening
  obtain ⟨_, _, _, rfl⟩ := Event.make_eq_ok_iff.1 hclosing
  cases h
  exact ⟨⟨rfl, rfl⟩, rfl, rfl⟩

/-- The two events of a flow are a link with the ids that come next. -/
theorem Linked.add_add {start finish : Event} (linked : trace.Linked links)
    (hname : name ∈ trace.flowNames) (hbegins : start.Begins (trace.flowKey name))
    (hends : finish.Ends (trace.flowKey name)) :
    ((trace.add start).add finish).Linked (links ++ [⟨name, trace.size, trace.size + 1⟩]) := by
  have grows := (trace.grows_add start).trans (grows_add _ finish)
  have hkey : ((trace.add start).add finish).flowKey name = trace.flowKey name := by
    rw [flowKey, grows.flowNumber_eq hname, flowKey]
  have hstart := (grows_add _ finish).get?_eq (trace.get?_add_size start)
  have hfinish := (trace.add start).get?_add_size finish
  rw [size_add] at hfinish
  refine ⟨fun link hlink => ?_, fun id found hfound hphase => ?_⟩
  · rcases List.mem_append.1 hlink with hlink | hlink
    · exact (linked.hasLink link hlink).of_grows grows
    · rw [List.mem_singleton.1 hlink]
      exact ⟨grows.flowNames.subset hname, ⟨start, hstart, hkey ▸ hbegins⟩, finish, hfinish,
        hkey ▸ hends⟩
  · rcases get?_add_cases hfound with hfound | ⟨rfl, _⟩
    · rcases get?_add_cases hfound with hfound | ⟨rfl, _⟩
      · obtain ⟨link, hlink, hid⟩ := linked.covers id found hfound hphase
        exact ⟨link, List.mem_append_left _ hlink, hid⟩
      · exact ⟨_, List.mem_append_right _ (List.mem_singleton_self _), Or.inl rfl⟩
    · refine ⟨_, List.mem_append_right _ (List.mem_singleton_self _), Or.inr ?_⟩
      simp [size]

/-- A call adds its link, if it adds one. -/
theorem Linked.perform (linked : trace.Linked links) {call : Call} (h : call.AddsNoFlow) :
    (trace.perform call).Linked (links ++ (trace.linked call).toList) := by
  cases call with
  | add event => exact (List.append_nil links).symm ▸ linked.add h
  | addAll events => exact (List.append_nil links).symm ▸ linked.addAll h
  | nameProcess pid name =>
      have grows := trace.grows_perform (.nameProcess pid name)
      exact (List.append_nil links).symm ▸
        ⟨fun link hlink => (linked.hasLink link hlink).of_grows grows, linked.covers⟩
  | nameThread scope name =>
      have grows := trace.grows_perform (.nameThread scope name)
      exact (List.append_nil links).symm ▸
        ⟨fun link hlink => (linked.hasLink link hlink).of_grows grows, linked.covers⟩
  | addFlow name source target =>
      show (trace.addFlow name source target).1.Linked _
      obtain ⟨fault, heq⟩ | ⟨fault, heq⟩ | ⟨origin, goal, start, finish, _, _, hevents, heq⟩ :=
        trace.addFlow_cases name source target
      · simpa [Trace.linked, heq] using linked
      · simpa [Trace.linked, heq] using linked.registerFlow name
      · obtain ⟨hbegins, hends⟩ := begins_ends_of_flowEvents hevents
        have hkey : (trace.registerFlow name).flowKey name =
            ⟨name, some (trace.flowNumber name)⟩ := by
          rw [flowKey, flowNumber_registerFlow]
        have hadded := (linked.registerFlow name).add_add (mem_flowNames_registerFlow trace name)
          (hkey ▸ hbegins) (hkey ▸ hends)
        rw [size_registerFlow] at hadded
        simpa [Trace.linked, heq] using hadded

theorem Linked.performAll {calls : List Call} (linked : trace.Linked links)
    (h : ∀ call ∈ calls, call.AddsNoFlow) :
    (trace.performAll calls).Linked (links ++ trace.linkedAll calls) := by
  induction calls generalizing trace links with
  | nil => exact (List.append_nil links).symm ▸ linked
  | cons call rest ih =>
      obtain ⟨hcall, hrest⟩ := List.forall_mem_cons.1 h
      have := ih (linked.perform hcall) hrest
      rwa [List.append_assoc] at this

/-- Where all flow events come from calls for flows, they are those of the links. -/
theorem linked_run {calls : List Call} (h : ∀ call ∈ calls, call.AddsNoFlow) :
    (run calls).Linked (Trace.links calls) := by
  have hempty : empty.Linked [] := ⟨by simp, fun id event hevent => by simp [get?, empty] at hevent⟩
  exact hempty.performAll h

/-! ## Chains -/

/-- The scope of the event with an id. -/
def scopeOf? (trace : Trace) (id : Nat) : Option Scope :=
  (trace.get? id).map (·.scope)

end Trace

namespace Chain

open Trace

/-- Whether an id is that of an end of a link with a name. -/
def EndsLink (links : List Link) (name : String) (id : Nat) : Prop :=
  ∃ link ∈ links, link.name = name ∧ link.finish = id

/-- A chain enters a new scope only at the end of a link whose own start it has before. -/
def CrossesByOwnLinks (chain : Chain) (trace : Trace) (links : List Link) : Prop :=
  ∀ before id after, chain.events = before ++ id :: after → before ≠ [] →
    (∀ earlier ∈ before, trace.scopeOf? earlier ≠ trace.scopeOf? id) →
      ∃ link ∈ links, link.finish = id ∧ link.start ∈ before

/-- A chain enters a new scope only at the end of a link, and has before the start of a link with
the same name, after which no link with the name ends in the trace. If it has no start of another
link with the name before, it has the start of this one. -/
def CrossesByLinks (chain : Chain) (trace : Trace) (links : List Link) : Prop :=
  ∀ before id after, chain.events = before ++ id :: after → before ≠ [] →
    (∀ earlier ∈ before, trace.scopeOf? earlier ≠ trace.scopeOf? id) →
      ∃ link ∈ links, link.finish = id ∧
        (∃ opening ∈ links, opening.name = link.name ∧ opening.start ∈ before ∧
          ∃ passed remaining, trace.ids = passed ++ id :: remaining ∧
            NoneSince (EndsLink links link.name) opening.start passed) ∧
        ((∀ other ∈ links, other.name = link.name → other.start ∈ before → other = link) →
          link.start ∈ before)

end Chain

namespace Matching

variable {trace : Trace} {taken : List Placed} {position : Nat}

/-- The ids in trace order are those at all positions. -/
theorem ids_eq_map (trace : Trace) :
    trace.ids = trace.placed.map fun placed => idAt trace placed.2 := by
  refine List.ext_getElem? fun i => ?_
  rw [List.getElem?_map]
  cases h : trace.placed[i]? with
  | none =>
      have hle : trace.placed.length ≤ i := List.getElem?_eq_none_iff.1 h
      refine List.getElem?_eq_none ?_
      simpa [Trace.ids, Trace.placed, Trace.events] using hle
  | some placed =>
      have hposition : placed.2 = i := by
        simp only [Trace.placed, List.getElem?_zipIdx, Option.map_eq_some_iff] at h
        obtain ⟨_, _, rfl⟩ := h
        simp
      rw [Option.map_some, ← getElem?_ids (List.mem_of_getElem? h), hposition]

/-- A start of a walk enters new scopes only along links. -/
theorem crossesByLinks_of_prefix_walk {links : List Trace.Link} (stable : trace.Stable)
    (linked : trace.Linked links) (hpre : taken <+: trace.walk position) (label : String) :
    (chainOfPath trace label (taken.map Prod.snd)).CrossesByLinks trace links := by
  intro before id after hsplit hne hnew
  have hplaced : ∀ placed ∈ taken, placed ∈ trace.placed :=
    fun placed hmem => (trace.walk_sublist position).subset (hpre.subset hmem)
  rw [events_chainOfPath_eq_map label hplaced] at hsplit
  obtain ⟨earlier, rest, rfl, rfl, hrest⟩ := List.map_eq_append_iff.1 hsplit
  obtain ⟨placed, later, rfl, rfl, rfl⟩ := List.map_eq_cons_iff.1 hrest
  have hscope {other : Placed} (hother : other ∈ trace.placed) :
      trace.scopeOf? (idAt trace other.2) = some other.1.scope := by
    rw [Trace.scopeOf?, get?_idAt stable hother]
    rfl
  have hscopes : ∀ other ∈ earlier, other.1.scope ≠ placed.1.scope := by
    intro other hother heq
    refine hnew _ (List.mem_map_of_mem hother) ?_
    rw [hscope (hplaced other (by simp [hother])), hscope (hplaced placed (by simp)), heq]
  have hearlier : earlier ≠ [] := by
    rintro rfl
    exact hne rfl
  obtain ⟨hphase, opening, passed, remaining, hwhole, opened⟩ :=
    opened_of_prefix_walk hpre hearlier hscopes
  have hopening : opening ∈ earlier := opened.taken.mem
  -- the end of the flow is that of a link, and its begin the start of one with the same name
  obtain ⟨link, hlink, hfinish, hkey⟩ :=
    linked.exists_finish (get?_idAt stable (hplaced placed (by simp))) hphase
  obtain ⟨origin, horigin, hstart, horiginKey⟩ :=
    linked.exists_start (get?_idAt stable (hplaced opening (by simp [hopening])))
      opened.begins.1
  have hname : origin.name = link.name := by
    have hflows := horiginKey.symm.trans (opened.begins.2.trans hkey)
    exact congrArg FlowKey.name hflows
  have hmem : origin.start ∈ earlier.map fun placed => idAt trace placed.2 := by
    rw [hstart]
    exact List.mem_map_of_mem hopening
  refine ⟨link, hlink, hfinish, ⟨origin, horigin, hname, hmem,
    passed.map fun placed => idAt trace placed.2,
    remaining.map fun placed => idAt trace placed.2, ?_, ?_⟩, fun hown => ?_⟩
  · rw [ids_eq_map, hwhole, List.map_append, List.map_cons]
  · rw [hstart]
    refine opened.passed.map fun other hother hends => ?_
    -- a link with the name that ends here ends the flow
    obtain ⟨ending, hending, hsame, hid⟩ := hends
    obtain ⟨event, hevent, hends⟩ := (linked.hasLink ending hending).ends
    rw [hid, get?_idAt stable (by simp [hwhole, hother])] at hevent
    cases hevent
    rwa [hsame, ← hkey] at hends
  · rwa [← hown origin horigin hname hmem]

/-- In a trace whose flow events all come from calls for flows, the chains of a pattern enter new
scopes only along links of one name. -/
theorem find_crosses_by_links {calls : List Trace.Call} (h : ∀ call ∈ calls, call.AddsNoFlow)
    (pattern : Pattern) (label : String) (rule : RepeatRule) :
    ∀ chain ∈ find (Trace.run calls) pattern label rule,
      chain.CrossesByLinks (Trace.run calls) (Trace.links calls) := by
  intro chain hchain
  obtain ⟨position, taken, hpre, htaken⟩ := (found_of_mem_find hchain).exists_taken
  rw [htaken]
  exact crossesByLinks_of_prefix_walk (Trace.built_run calls).stable (Trace.linked_run h) hpre
    chain.label

/-! ## Two links of one name -/

/-- Messages from process 1 to process 2 and from process 3 to process 4, where the second one is
received first. A load begins in process 1, and loads end in processes 2 and 4. -/
def twoMessages : List Trace.Call :=
  [.add ⟨"load", .spanBegin, .zero, ⟨1, 0⟩, none, [], Trace.load_ne_empty⟩,
    .add ⟨"load", .spanEnd, ⟨2, by decide, by decide⟩, ⟨2, 0⟩, none, [], Trace.load_ne_empty⟩,
    .add ⟨"send", .instant, .zero, ⟨3, 0⟩, none, [], Trace.send_ne_empty⟩,
    .add ⟨"load", .spanEnd, ⟨1, by decide, by decide⟩, ⟨4, 0⟩, none, [], Trace.load_ne_empty⟩,
    .addFlow "message" 0 1, .addFlow "message" 2 3]

theorem addsNoFlow_twoMessages : ∀ call ∈ twoMessages, call.AddsNoFlow := by
  simp [twoMessages, Trace.Call.AddsNoFlow, Phase.isFlow]

/-- The load in process 1 goes on in process 4. -/
theorem mem_find_twoMessages :
    chainOfPath (Trace.run twoMessages) "loads" [0, 2, 4, 5] ∈
      find (Trace.run twoMessages) .load "loads" .noRepeat :=
  mem_find_load (Trace.kindsFit_of_length_le (by decide +kernel)) "loads" (by decide +kernel)

/-- The load in process 1 goes on in process 4, to which only process 3 has sent a message. -/
theorem not_crossesByOwnLinks :
    let trace := Trace.run twoMessages
    let chain := chainOfPath trace "loads" [0, 2, 4, 5]
    Pattern.compile "load+ * load-" = .ok .load ∧ (∀ call ∈ twoMessages, call.AddsNoFlow) ∧
      chain ∈ find trace .load "loads" .noRepeat ∧ chain.events = [0, 4, 7, 3] ∧
      Trace.links twoMessages = [⟨"message", 4, 5⟩, ⟨"message", 6, 7⟩] ∧
      ¬ chain.CrossesByOwnLinks trace (Trace.links twoMessages) := by
  intro trace chain
  have hevents : chain.events = [0, 4, 7, 3] := by decide +kernel
  have hlinks : Trace.links twoMessages = [⟨"message", 4, 5⟩, ⟨"message", 6, 7⟩] := by
    decide +kernel
  refine ⟨Pattern.compile_load, addsNoFlow_twoMessages, mem_find_twoMessages, hevents, hlinks,
    fun crosses => ?_⟩
  have hnew : ∀ earlier ∈ [0, 4], trace.scopeOf? earlier ≠ trace.scopeOf? 7 := by decide +kernel
  obtain ⟨link, hlink, hfinish, hstart⟩ :=
    crosses [0, 4] 7 [3] hevents (List.cons_ne_nil _ _) hnew
  rw [hlinks] at hlink
  -- the only link that ends there starts in process 3
  rcases List.mem_cons.1 hlink with rfl | hlink
  · exact absurd hfinish (by decide)
  · rw [List.mem_singleton.1 hlink] at hstart
    exact absurd hstart (by decide)

/-- The load in process 1 goes on in process 4 along two links of one name. -/
theorem find_crosses_by_links_twoMessages :
    let trace := Trace.run twoMessages
    let chain := chainOfPath trace "loads" [0, 2, 4, 5]
    (∀ call ∈ twoMessages, call.AddsNoFlow) ∧ chain ∈ find trace .load "loads" .noRepeat ∧
      chain.CrossesByLinks trace (Trace.links twoMessages) := by
  intro trace chain
  exact ⟨addsNoFlow_twoMessages, mem_find_twoMessages,
    find_crosses_by_links addsNoFlow_twoMessages .load "loads" .noRepeat chain mem_find_twoMessages⟩

end Matching

end EventChains
