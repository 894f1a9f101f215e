import EventChains.Proofs.Matching.RepeatRules
import EventChains.Proofs.Matching.Stack

/-!
# A candidate's state records what it has taken

Every candidate that is ever on the stack of a hunt has gone forward through the trace, and its sets
hold what follows from the events that it has taken: their scopes, the flows whose last event among
them is a begin, and the numbers of the kinds that the current wildcard has taken (`Records`). The
sets are sorted, so looking up a member decides membership, and states with the same sets are equal.
The main statement is `records_of_stacked`.

The first event of a candidate opens no flow. It belongs to none, if the numbers of kinds tell it
from the flow events of the trace.
-/

namespace EventChains.Matching

/-! ## What some events leave behind -/

/-- The last of some events that begins or ends a flow. -/
def lastOfFlow? (key : FlowKey) (events : List Event) : Option Event :=
  (events.filter fun event => event.phase.isFlow && decide (event.flowKey = key)).getLast?

/-- The flows whose last event among some events begins them. -/
def openFlows (events : List Event) : Set FlowKey :=
  {key | (lastOfFlow? key events).map (·.phase) = some .flowBegin}

variable {events : List Event} {event : Event} {key : FlowKey}

theorem lastOfFlow?_concat :
    lastOfFlow? key (events ++ [event]) =
      if event.phase.isFlow = true ∧ event.flowKey = key then some event
      else lastOfFlow? key events := by
  rw [lastOfFlow?, List.filter_append, List.getLast?_append]
  split <;> simp_all [lastOfFlow?]

theorem openFlows_nil : openFlows [] = ∅ :=
  Set.eq_empty_of_forall_notMem fun _ h => by contradiction

theorem mem_openFlows_concat :
    key ∈ openFlows (events ++ [event]) ↔
      if event.phase.isFlow = true ∧ event.flowKey = key then event.phase = .flowBegin
      else key ∈ openFlows events := by
  show (lastOfFlow? key (events ++ [event])).map (·.phase) = some .flowBegin ↔ _
  rw [lastOfFlow?_concat]
  split
  · simp
  · rfl

theorem openFlows_concat_of_begin (h : event.phase = .flowBegin) :
    openFlows (events ++ [event]) = insert event.flowKey (openFlows events) := by
  ext key
  rw [mem_openFlows_concat, h, Set.mem_insert_iff]
  rcases eq_or_ne key event.flowKey with rfl | hne
  · simp [Phase.isFlow]
  · simp [hne, hne.symm]

theorem openFlows_concat_of_end (h : event.phase = .flowEnd) :
    openFlows (events ++ [event]) = openFlows events \ {event.flowKey} := by
  ext key
  rw [mem_openFlows_concat, h, Set.mem_sdiff, Set.mem_singleton_iff]
  rcases eq_or_ne key event.flowKey with rfl | hne
  · simp [Phase.isFlow]
  · simp [hne, hne.symm]

theorem openFlows_concat_of_not_flow (h : event.phase.isFlow = false) :
    openFlows (events ++ [event]) = openFlows events := by
  ext key
  rw [mem_openFlows_concat, if_neg (by simp [h])]

theorem openFlows_cons_of_not_flow (h : event.phase.isFlow = false) :
    openFlows (event :: events) = openFlows events := by
  simp [openFlows, lastOfFlow?, h]

/-- What occurs at the events of a list, and what occurs at one more. -/
theorem setOf_mem_map_concat {α : Type} (f : Event → α) (events : List Event) (event : Event) :
    {a | a ∈ (events ++ [event]).map f} = insert (f event) {a | a ∈ events.map f} := by
  ext a
  simp [or_comm]

/-! ## Taking an event -/

variable {trace : Trace} {state : State} {position : Nat} {slot : Slot}

/-- The event of a slot. -/
theorem Course.exists_stands (h : (Course.ofTrace trace).slots[position]? = some slot) :
    ∃ event, trace.events[position]? = some event ∧ (Course.ofTrace trace).Stands slot event := by
  obtain ⟨hlt, rfl⟩ := Array.getElem?_eq_some_iff.1 h
  obtain ⟨event, stands, hdrop⟩ := Course.slot_stands hlt
  have hmem : (event, position) ∈ trace.placed :=
    List.mem_of_mem_drop (hdrop ▸ List.mem_cons_self)
  exact ⟨event, List.mem_zipIdx_iff_getElem?.1 hmem, stands⟩

theorem eventsAt_concat (path : List Nat) (h : trace.events[position]? = some event) :
    eventsAt trace (path ++ [position]) = eventsAt trace path ++ [event] := by
  simp [eventsAt, List.filterMap_append, h]

/-- The next event in view is in view. -/
theorem State.sees_of_nextInView? {slots : Array Slot} {start : Nat}
    (h : state.nextInView? slots start = some (position, slot)) : state.sees slot = true := by
  fun_induction State.nextInView? state slots start with
  | case1 start hlt hsees =>
      cases h
      exact hsees
  | case2 start hlt hsees ih => exact ih h
  | case3 => contradiction

/-- An event in view adds its scope: it is there already, or the event ends a flow. -/
theorem State.lists_scopesAfter (hsees : state.sees slot = true)
    (scopes : state.scopes.Lists {scope | scope ∈ events.map (·.scope)}) :
    (state.scopesAfter slot).Lists {scope | scope ∈ (events ++ [slot.event]).map (·.scope)} := by
  rw [setOf_mem_map_concat]
  unfold State.scopesAfter
  split
  · exact scopes.insert slot.event.scope
  · rename_i hphase
    have hscope : slot.event.scope ∈ {scope | scope ∈ events.map (·.scope)} := by
      rw [State.sees, Bool.or_eq_true, Bool.and_eq_true, beq_iff_eq, scopes.has_iff] at hsees
      exact hsees.resolve_right fun h => hphase h.1
    rwa [Set.insert_eq_of_mem hscope]

/-- An event opens the flow that it begins, and closes the flow that it ends. -/
theorem State.lists_flowsAfter (flows : state.flows.Lists (openFlows events)) :
    (state.flowsAfter slot).Lists (openFlows (events ++ [slot.event])) := by
  unfold State.flowsAfter
  split
  · rename_i hphase
    rw [openFlows_concat_of_begin hphase]
    exact flows.insert slot.event.flowKey
  · rename_i hphase
    rw [openFlows_concat_of_end hphase]
    exact flows.erase slot.event.flowKey
  · rename_i hbegin hend
    rw [openFlows_concat_of_not_flow]
    · exact flows
    · cases hphase : slot.event.phase <;> simp_all [Phase.isFlow]

/-! ## Records -/

/-- A candidate has gone from its first position up to the one before that of its state, and its
scopes and flows are those that the events taken leave behind; the first one opens no flow. -/
structure Draws (trace : Trace) (start : Nat) (candidate : Candidate) : Prop where
  head : candidate.path.head? = some start
  increasing : candidate.path.Pairwise (· < ·)
  last : candidate.path.getLast?.map (· + 1) = some candidate.state.position
  scopes : candidate.state.scopes.Lists
    {scope | scope ∈ (eventsAt trace candidate.path).map (·.scope)}
  flows : candidate.state.flows.Lists (openFlows (eventsAt trace candidate.path.tail))

/-- A run holds the kinds of the events that a wildcard has taken, by their numbers. Where repeats
are allowed it holds nothing. -/
def RunsOver (trace : Trace) (rule : RepeatRule) (absorbed : List Nat) (run : SortedSet UInt32) :
    Prop :=
  match rule with
  | .noRepeat => NumbersOf (Course.ofTrace trace).kinds
      {kind | kind ∈ (eventsAt trace absorbed).map Event.kind} run
  | .unrestricted => run = []

/-- The state of a candidate is a record of what it has taken; its wildcard has taken the events at
the positions `absorbed`. -/
structure Records (trace : Trace) (rule : RepeatRule) (start : Nat) (candidate : Candidate)
    (absorbed : List Nat) : Prop extends Draws trace start candidate where
  run : RunsOver trace rule absorbed candidate.state.run

variable {start : Nat} {candidate next : Candidate} {rule : RepeatRule} {absorbed : List Nat}
  {hunt : Hunt}

/-- The first candidate draws on its first event. -/
theorem draws_start (hevent : trace.events[start]? = some event)
    (stands : (Course.ofTrace trace).Stands slot event) :
    Draws trace start (Candidate.start start slot) where
  head := rfl
  increasing := List.pairwise_singleton _ _
  last := rfl
  scopes := by
    have hevents : eventsAt trace (Candidate.start start slot).path = [] ++ [event] :=
      eventsAt_concat [] hevent
    rw [hevents, setOf_mem_map_concat, ← stands.event_eq]
    show SortedSet.Lists (SortedSet.insert slot.event.scope []) _
    simpa using SortedSet.Lists.empty.insert slot.event.scope
  flows := openFlows_nil ▸ SortedSet.Lists.empty

/-- All positions taken are before that of the state. -/
theorem Draws.lt_position (draws : Draws trace start candidate) :
    ∀ position ∈ candidate.path, position < candidate.state.position := by
  obtain ⟨last, hlast, hposition⟩ := Option.map_eq_some_iff.1 draws.last
  obtain ⟨earlier, hpath⟩ := List.getLast?_eq_some_iff.1 hlast
  obtain ⟨_, _, hlt⟩ := List.pairwise_append.1 (hpath ▸ draws.increasing)
  intro position hmem
  rw [hpath, List.mem_append, List.mem_singleton] at hmem
  rcases hmem with hmem | rfl
  · have := hlt position hmem last (List.mem_singleton_self last)
    omega
  · omega

/-- Taking the next event keeps the record. -/
theorem Draws.take (draws : Draws trace start candidate)
    (hview : candidate.state.nextInView? (Course.ofTrace trace).slots candidate.state.position =
      some (position, slot))
    (htaken : next.taken = position :: candidate.taken)
    (hposition : next.state.position = position + 1)
    (hscopes : next.state.scopes = candidate.state.scopesAfter slot)
    (hflows : next.state.flows = candidate.state.flowsAfter slot) : Draws trace start next := by
  obtain ⟨hle, hslot⟩ := candidate.state.nextInView?_spec hview
  obtain ⟨event, hevent, stands⟩ := Course.exists_stands hslot
  rw [← stands.event_eq] at hevent
  have hpath : next.path = candidate.path ++ [position] := by
    rw [Candidate.path, htaken, List.reverse_cons]
    rfl
  constructor
  · rw [hpath, List.head?_append, draws.head]
    rfl
  · rw [hpath, List.pairwise_append]
    refine ⟨draws.increasing, List.pairwise_singleton _ _, fun earlier hearlier later hlater => ?_⟩
    rw [List.mem_singleton.1 hlater]
    exact Nat.lt_of_lt_of_le (draws.lt_position earlier hearlier) hle
  · rw [hpath, hposition]
    simp
  · rw [hpath, eventsAt_concat candidate.path hevent, hscopes]
    exact State.lists_scopesAfter (State.sees_of_nextInView? hview) draws.scopes
  · have hne : candidate.path ≠ [] := by
      intro hnil
      have := draws.head
      rw [hnil] at this
      contradiction
    rw [hpath, List.tail_append_of_ne_nil hne, eventsAt_concat candidate.path.tail hevent, hflows]
    exact State.lists_flowsAfter draws.flows

/-- A wildcard that has taken nothing has an empty run. -/
theorem runsOver_nil (trace : Trace) (rule : RepeatRule) : RunsOver trace rule [] [] := by
  unfold RunsOver
  split
  · have empty : NumbersOf (Course.ofTrace trace).kinds ∅ [] := NumbersOf.empty
    simpa [eventsAt] using empty
  · rfl

/-- What a wildcard takes is added to its run. -/
theorem RunsOver.absorb (runs : RunsOver trace rule absorbed state.run)
    (hevent : trace.events[position]? = some event)
    (stands : (Course.ofTrace trace).Stands slot event) :
    RunsOver trace rule (absorbed ++ [position]) (state.absorb rule position slot).run := by
  cases rule with
  | noRepeat =>
      show NumbersOf _ {kind | kind ∈ (eventsAt trace (absorbed ++ [position])).map Event.kind} _
      rw [eventsAt_concat absorbed hevent, setOf_mem_map_concat]
      exact NumbersOf.insert runs stands.kind
  | unrestricted => exact runs

/-- What a trail leads to is a record of what it has taken. -/
theorem records_of_trail {first : Candidate} (hslots : hunt.slots = (Course.ofTrace trace).slots)
    (draws : Draws trace start first) (hrun : first.state.run = [])
    (trail : hunt.Trail first candidate absorbed) :
    Records trace hunt.rule start candidate absorbed := by
  induction trail with
  | start => exact ⟨draws, hrun ▸ runsOver_nil trace hunt.rule⟩
  | advance _ hnext _ _ ih =>
      have hview := (Option.filter_eq_some_iff.1 hnext).1
      rw [hslots] at hview
      exact ⟨ih.toDraws.take hview rfl rfl rfl rfl, runsOver_nil trace hunt.rule⟩
  | @absorb candidate absorbed position slot step _ hnext _ _ _ ih =>
      have hview := (Option.filter_eq_some_iff.1 hnext).1
      rw [hslots] at hview
      obtain ⟨event, hevent, stands⟩ :=
        Course.exists_stands (candidate.state.nextInView?_spec hview).2
      exact ⟨ih.toDraws.take hview rfl rfl rfl rfl, ih.run.absorb hevent stands⟩

/-! ## Bounds -/

/-- A candidate on the stack has a step to complete, and has looked at positions of the trace
only. -/
structure InBounds (hunt : Hunt) (state : State) : Prop where
  one_le_step : 1 ≤ state.step
  step_lt : state.step < hunt.steps.size
  position_le : state.position ≤ hunt.slots.size

theorem inBounds_of_stacked (hstart : hunt.slots[start]? = some slot)
    (hsteps : 0 < hunt.steps.size)
    (stacked : hunt.Stacked (Candidate.start start slot) candidate) :
    InBounds hunt candidate.state := by
  refine stacked.induction (P := fun candidate => InBounds hunt candidate.state) ?_ ?_
  · intro candidate ⟨hone, hlt, _⟩ next hnext hincomplete
    have hne : next.state.step ≠ hunt.steps.size := mt beq_iff_eq.2 hincomplete
    have hposition := (Hunt.position_of_mem_successors hnext).2
    obtain ⟨_, _, _, _, _, hnext⟩ := Hunt.mem_successors_iff.1 hnext
    rcases hnext with ⟨_, rfl⟩ | ⟨_, rfl⟩
    · have hle : candidate.state.step + 1 ≤ hunt.steps.size := hlt
      exact ⟨Nat.le_add_left 1 _, Nat.lt_of_le_of_ne hle hne, hposition⟩
    · exact ⟨hone, hlt, hposition⟩
  · intro hincomplete
    have hne : 1 ≠ hunt.steps.size := mt beq_iff_eq.2 hincomplete
    have hlt := (Array.getElem?_eq_some_iff.1 hstart).1
    exact ⟨Nat.le_refl 1, Nat.lt_of_le_of_ne hsteps hne, hlt⟩

/-! ## Sets of states -/

/-- The sets of a state are sorted. -/
structure State.Sorted (state : State) : Prop where
  run : state.run.Sorted
  scopes : state.scopes.Sorted
  flows : state.flows.Sorted

/-- Two states have the same step, the same position and the same members in their sets. -/
structure State.SameMembers (state other : State) : Prop where
  step : state.step = other.step
  position : state.position = other.position
  run : ∀ kind, kind ∈ state.run ↔ kind ∈ other.run
  scopes : ∀ scope, scope ∈ state.scopes ↔ scope ∈ other.scopes
  flows : ∀ flow, flow ∈ state.flows ↔ flow ∈ other.flows

/-- States with sorted sets are equal if the sets have the same members. -/
theorem State.Sorted.eq {other : State} (sorted : state.Sorted) (hother : other.Sorted)
    (same : state.SameMembers other) : state = other := by
  obtain ⟨step, position, run, scopes, flows⟩ := state
  obtain ⟨rfl, rfl, hrun, hscopes, hflows⟩ := same
  rw [State.mk.injEq]
  exact ⟨rfl, rfl, sorted.run.ext hother.run hrun, sorted.scopes.ext hother.scopes hscopes,
    sorted.flows.ext hother.flows hflows⟩

/-- A record has sorted sets. -/
theorem Records.sorted (records : Records trace rule start candidate absorbed) :
    candidate.state.Sorted where
  run := by
    have hrun := records.run
    unfold RunsOver at hrun
    split at hrun
    · exact hrun.sorted
    · rw [hrun]
      exact SortedSet.sorted_nil
  scopes := records.scopes.sorted
  flows := records.flows.sorted

/-! ## The stack -/

/-- The first event of a compiled pattern belongs to no flow. -/
theorem isFlow_of_first (fit : trace.KindsFit) {source : String} {pattern : Pattern}
    {steps : List Step} (hcompile : Pattern.compile source = .ok pattern)
    (hsteps : Step.ofTokens? (Course.ofTrace trace).kinds false pattern.tokens = some steps)
    (hfirst : steps.head? = some (.direct slot.kind))
    (stands : (Course.ofTrace trace).Stands slot event) : event.phase.isFlow = false := by
  obtain ⟨name, edge, following, htokens⟩ := Pattern.tokens_of_compile hcompile
  rw [htokens] at hsteps
  obtain ⟨n, more, hkind, _, rfl⟩ := Step.ofTokens?_named hsteps
  cases hfirst
  have hevent : event.kind = (name, edge.phase) := (kind_eq_iff fit hkind stands).1 rfl
  have hphase : event.phase = edge.phase := congrArg Prod.snd hevent
  rw [hphase]
  cases edge <;> rfl

/-- If the first event belongs to no flow, the flows of a state are those of all events taken. -/
theorem Draws.lists_flows (draws : Draws trace start candidate)
    (hevent : trace.events[start]? = some event) (hflow : event.phase.isFlow = false) :
    candidate.state.flows.Lists (openFlows (eventsAt trace candidate.path)) := by
  obtain ⟨rest, hpath⟩ := List.head?_eq_some_iff.1 draws.head
  have hevents : eventsAt trace candidate.path = event :: eventsAt trace candidate.path.tail := by
    rw [hpath, eventsAt, List.filterMap_cons, hevent]
    rfl
  rw [hevents, openFlows_cons_of_not_flow hflow]
  exact draws.flows

/-- Every candidate that is ever on the stack of a hunt for a compiled pattern has come about by a
trail, and whatever trail that is, the state is a record of what has been taken; as long as the
kinds of the trace have different numbers, its flows are those of all events taken, the first one
included. The step and all positions that are looked at are in bounds. The sets are sorted, so that
looking up a member decides whether it is one, and another state with sorted sets and the same
members is the same state. The claimed events and the states that are known to fail may be any. -/
theorem records_of_stacked {source : String} {pattern : Pattern} {steps : List Step}
    (hcompile : Pattern.compile source = .ok pattern)
    (hsteps : Step.ofTokens? (Course.ofTrace trace).kinds false pattern.tokens = some steps)
    (hslot : (Course.ofTrace trace).slots[start]? = some slot)
    (hfirst : steps.head? = some (.direct slot.kind)) (scan : Scan) (rule : RepeatRule)
    (stacked : (scan.hunt (.ofTrace trace) steps rule).Stacked (Candidate.start start slot)
      candidate) :
    let hunt := scan.hunt (.ofTrace trace) steps rule
    let state := candidate.state
    (∃ absorbed, hunt.Trail (Candidate.start start slot) candidate absorbed) ∧
      (∀ absorbed, hunt.Trail (Candidate.start start slot) candidate absorbed →
        Records trace rule start candidate absorbed) ∧
      (trace.KindsFit → state.flows.Lists (openFlows (eventsAt trace candidate.path))) ∧
      (1 ≤ state.step ∧ state.step < steps.length) ∧ state.position ≤ trace.events.length ∧
      (∀ position slot, hunt.next? state = some (position, slot) →
        position < trace.events.length) ∧
      (state.Sorted ∧ (∀ kind, state.run.has kind = true ↔ kind ∈ state.run) ∧
        (∀ scope, state.scopes.has scope = true ↔ scope ∈ state.scopes) ∧
        ∀ flow, state.flows.has flow = true ↔ flow ∈ state.flows) ∧
      ∀ other : State, other.Sorted → state.SameMembers other → state = other := by
  intro hunt state
  obtain ⟨event, hevent, stands⟩ := Course.exists_stands hslot
  have records : ∀ absorbed, hunt.Trail (Candidate.start start slot) candidate absorbed →
      Records trace rule start candidate absorbed :=
    fun absorbed trail => records_of_trail rfl (draws_start hevent stands) rfl trail
  obtain ⟨absorbed, trail⟩ := stacked.exists_trail
  have draws := (records absorbed trail).toDraws
  have sorted := (records absorbed trail).sorted
  have hsize : hunt.slots.size = trace.events.length :=
    (Course.size_slots_ofTrace trace).trans List.length_zipIdx
  have hpos : 0 < steps.length :=
    List.length_pos_of_mem (List.mem_of_mem_head? hfirst)
  have inBounds := inBounds_of_stacked hslot hpos stacked
  refine ⟨⟨absorbed, trail⟩, records, ?_, ⟨inBounds.one_le_step, ?_⟩, ?_, ?_, ⟨sorted, ?_⟩, ?_⟩
  · intro fit
    exact draws.lists_flows hevent (isFlow_of_first fit hcompile hsteps hfirst stands)
  · exact inBounds.step_lt
  · exact hsize ▸ inBounds.position_le
  · intro position slot hnext
    exact hsize ▸ (hunt.next?_bounds hnext).2
  · exact ⟨SortedSet.has_iff_mem sorted.run, SortedSet.has_iff_mem sorted.scopes,
      SortedSet.has_iff_mem sorted.flows⟩
  · exact fun other hother same => sorted.eq hother same

/-- A load is looked for from its first event, and the wildcard takes the second one. -/
theorem records_of_stacked_load :
    let course := Course.ofTrace .load
    ∃ steps slot candidate, Step.ofTokens? course.kinds false Pattern.load.tokens = some steps ∧
      course.slots[0]? = some slot ∧ steps.head? = some (.direct slot.kind) ∧
      (Scan.hunt {} course steps .noRepeat).Stacked (Candidate.start 0 slot) candidate ∧
      candidate.path = [0, 1] ∧
      (∃ absorbed, (Scan.hunt {} course steps .noRepeat).Trail (Candidate.start 0 slot) candidate
          absorbed ∧ Records .load .noRepeat 0 candidate absorbed) ∧
      candidate.state.flows.Lists (openFlows (eventsAt .load candidate.path)) ∧
      (1 ≤ candidate.state.step ∧ candidate.state.step < steps.length) ∧
      candidate.state.position ≤ Trace.load.events.length ∧
      candidate.state.Sorted := by
  intro course
  obtain ⟨steps, hsteps⟩ := exists_steps_load
  have hsize : 0 < course.slots.size := by
    rw [Course.size_slots_ofTrace]
    decide +kernel
  obtain ⟨event, stands, hplaced⟩ := Course.slot_stands hsize
  have hslot : course.slots[0]? = some course.slots[0] := Array.getElem?_eq_getElem hsize
  have hhead : Trace.load.placed.head? = some (event, 0) := congrArg List.head? hplaced
  have hkind : Trace.load.placed.head?.map (·.1.kind) = some ("load", .spanBegin) := by
    decide +kernel
  have hplain : (Trace.load.placed.head?.bind fun start =>
      (Plain.next? ∅ (View.start start.1) (Trace.load.placed.drop 1)).map (·.1.2)) = some 1 := by
    decide +kernel
  rw [hhead] at hkind hplain
  obtain ⟨n, more, hn, hmore, rfl⟩ := Step.ofTokens?_named hsteps
  have hclosing : Step.ofTokens? course.kinds true [.named "load" .closing] = some more := hmore
  obtain ⟨m, rest, _, hrest, rfl⟩ := Step.ofTokens?_named hclosing
  cases hrest
  have hfirst : n = course.slots[0].kind := by
    have hevent : event.kind = ("load", .spanBegin) := Option.some.inj hkind
    exact (stands.kind_eq hn hevent).symm
  have hhunts := (Scan.tracks_empty .load [.direct n, .awaited m] .noRepeat).huntsThrough
  have hnext := hhunts.next?_eq (Shows.start 0 stands)
  obtain ⟨⟨⟨_, _⟩, _⟩, hplain, rfl⟩ := Option.map_eq_some_iff.1 hplain
  rw [show Plain.next? ∅ _ (Trace.load.placed.drop (State.start 0 _).position) = _ from hplain]
    at hnext
  obtain ⟨_, slot, _, hfound⟩ := hnext
  let first := Candidate.start 0 course.slots[0]
  let hunt := Scan.hunt {} course [.direct n, .awaited m] .noRepeat
  have hsuccessor : first.absorb .noRepeat 1 slot ∈ hunt.successors first := by
    refine Hunt.mem_successors_iff.2 ⟨1, slot, .awaited m, hfound, rfl, .inr ⟨⟨rfl, ?_⟩, rfl⟩⟩
    exact Bool.false_ne_true
  have hstacked : hunt.Stacked first (first.absorb .noRepeat 1 slot) :=
    Hunt.stacked_of_mem_successors Bool.false_ne_true (by simp [hunt, Scan.hunt]) hsuccessor
      Bool.false_ne_true
  obtain ⟨⟨absorbed, trail⟩, records, hflows, hstep, hposition, _⟩ :=
    records_of_stacked Pattern.compile_load hsteps hslot (hfirst ▸ rfl) {} .noRepeat hstacked
  have hrecords := records absorbed trail
  exact ⟨_, _, _, hsteps, hslot, hfirst ▸ rfl, hstacked, rfl, ⟨absorbed, trail, hrecords⟩,
    hflows kindsFit_load, hstep, hposition, hrecords.sorted⟩

end EventChains.Matching
