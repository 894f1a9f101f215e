import EventChains.Proofs.Matching.Viewpoints

/-!
# The turns of a hunt

A hunt takes turns until one of them ends it. A turn takes the topmost candidate off the stack; if
its state is not known, the state is expanded, and at most two later candidates come in its place.
No state is expanded twice (`ReachesIn.nodup`), and each turn takes off what the first frontier or
an expanded state has put there (`ReachesIn.turns_add_length_le`). So the number of turns is bounded
by the number of states, which grows with the number of steps times the square of the length of the
trace, and only with the product of the two where repeats are allowed. The main statement is
`hunt_ends`.
-/

namespace EventChains.Matching

/-- The outcome of a hunt, if the turn ends it. -/
def Turn.outcome? : Turn → Option Outcome
  | .found path => some (.found path)
  | .exhausted explored => some (.exhausted explored)
  | .next _ => none

namespace Hunt

variable (hunt : Hunt)

/-- The state that a turn expands: the one of the topmost candidate, unless it is known. -/
def expanded? (frontier : Frontier) : Option State :=
  match frontier.stack with
  | [] => none
  | candidate :: _ =>
      if candidate.state ∈ hunt.failed ∨ candidate.state ∈ frontier.explored then none
      else some candidate.state

/-- A hunt comes to a frontier in so many turns, which have expanded the states of a list, the last
one first. -/
inductive ReachesIn (first : Candidate) : Nat → List State → Frontier → Prop where
  | start (h : ¬ hunt.isComplete first = true) : ReachesIn first 0 [] ⟨[first], ∅⟩
  | turn {turns : Nat} {expanded : List State} {frontier later : Frontier}
      (reaches : ReachesIn first turns expanded frontier)
      (hturn : hunt.turn frontier = .next later) :
      ReachesIn first (turns + 1) ((hunt.expanded? frontier).toList ++ expanded) later

/-- A candidate can go on in two ways: the next event completes the current step, which is not the
last one, and the current wildcard may also take it. -/
structure Forks (candidate : Candidate) (position : Nat) (slot : Slot) (step : Step) : Prop where
  next : hunt.next? candidate.state = some (position, slot)
  current : hunt.steps[candidate.state.step]? = some step
  completes : slot.kind = step.kind
  more : candidate.state.step + 1 ≠ hunt.steps.size
  awaited : step.isAwaited = true
  fresh : ¬ candidate.state.run.has slot.kind = true

variable {hunt} {first candidate : Candidate} {frontier later : Frontier} {state : State}
  {turns : Nat} {expanded : List State}

/-! ## What a turn expands -/

/-- The expanded state is that of the topmost candidate, and it is not known. -/
theorem expanded?_eq_some_iff :
    hunt.expanded? frontier = some state ↔
      (∃ candidate, frontier.stack.head? = some candidate ∧ candidate.state = state) ∧
        ¬ (state ∈ hunt.failed ∨ state ∈ frontier.explored) := by
  obtain ⟨stack, explored⟩ := frontier
  cases stack with
  | nil => simp [expanded?]
  | cons candidate rest =>
      by_cases hknown : candidate.state ∈ hunt.failed ∨ candidate.state ∈ explored
      · simp only [expanded?, if_pos hknown, List.head?_cons, Option.some.injEq]
        grind
      · simp only [expanded?, if_neg hknown, List.head?_cons, Option.some.injEq]
        grind

/-- A turn adds the state that it expands to the explored ones. -/
theorem mem_explored_of_turn (h : hunt.turn frontier = .next later) :
    state ∈ later.explored ↔ hunt.expanded? frontier = some state ∨ state ∈ frontier.explored := by
  obtain ⟨stack, explored⟩ := frontier
  cases stack with
  | nil => contradiction
  | cons candidate rest =>
      by_cases hknown : candidate.state ∈ hunt.failed ∨ candidate.state ∈ explored
      · rw [turn_of_known hknown] at h
        cases h
        simp [expanded?, hknown]
      · rw [turn_of_not_known hknown] at h
        split at h
        · contradiction
        · cases h
          simp [expanded?, hknown]

/-! ## What a turn puts on the stack -/

/-- What comes onto the stack are the incomplete successors of the expanded candidate. -/
theorem pushed_eq_of_expanded (hhead : frontier.stack.head? = some candidate)
    (h : hunt.expanded? frontier = some candidate.state) :
    hunt.pushed frontier =
      (hunt.successors candidate).filter fun next => !hunt.isComplete next := by
  obtain ⟨stack, explored⟩ := frontier
  obtain ⟨rest, rfl⟩ := List.head?_eq_some_iff.1 hhead
  exact pushed_of_not_known (expanded?_eq_some_iff.1 h).2

/-- A turn that expands no state puts nothing on the stack. -/
theorem pushed_eq_nil (h : hunt.expanded? frontier = none) : hunt.pushed frontier = [] := by
  obtain ⟨stack, explored⟩ := frontier
  cases stack with
  | nil => rfl
  | cons candidate rest =>
      refine pushed_of_known ?_
      by_contra hknown
      simp [expanded?, hknown] at h

theorem length_successors_le (candidate : Candidate) : (hunt.successors candidate).length ≤ 2 := by
  unfold successors
  split
  · rw [List.length_append]
    exact Nat.add_le_add (Option.length_toList_le) (Option.length_toList_le)
  · exact Nat.zero_le 2

/-- A turn puts at most two candidates on the stack, and none if it expands no state. -/
theorem length_pushed_le (frontier : Frontier) :
    (hunt.pushed frontier).length ≤ 2 * (hunt.expanded? frontier).toList.length := by
  cases hexpanded : hunt.expanded? frontier with
  | none => rw [pushed_eq_nil hexpanded]; exact Nat.zero_le _
  | some state =>
      obtain ⟨⟨candidate, hhead, rfl⟩, _⟩ := expanded?_eq_some_iff.1 hexpanded
      rw [pushed_eq_of_expanded hhead hexpanded]
      exact (List.length_filter_le _ _).trans (length_successors_le candidate)

/-- There is an incomplete successor for an event that completes a step before the last one, and one
for an event that the current wildcard may take. -/
theorem length_filter_successors {position : Nat} {slot : Slot} {step : Step}
    (hnext : hunt.next? candidate.state = some (position, slot))
    (hstep : hunt.steps[candidate.state.step]? = some step) :
    ((hunt.successors candidate).filter fun next => !hunt.isComplete next).length =
      (if slot.kind = step.kind ∧ candidate.state.step + 1 ≠ hunt.steps.size then 1 else 0) +
        if step.isAwaited = true ∧ ¬ candidate.state.run.has slot.kind = true then 1 else 0 := by
  have hlt := (Array.getElem?_eq_some_iff.1 hstep).1
  have hadvance : hunt.isComplete (candidate.advance position slot) =
      (candidate.state.step + 1 == hunt.steps.size) := rfl
  have habsorb : hunt.isComplete (candidate.absorb hunt.rule position slot) = false :=
    beq_false_of_ne (Nat.ne_of_lt hlt)
  rw [successors, hnext, hstep]
  dsimp only
  rw [List.filter_append, List.length_append]
  congr 1
  · unfold advance?
    by_cases hkind : slot.kind = step.kind
    · by_cases hlast : candidate.state.step + 1 = hunt.steps.size <;> simp [hkind, hadvance, hlast]
    · simp [hkind]
  · unfold absorb?
    split <;> simp_all

/-- Two candidates come onto the stack where the topmost one can go on in two ways. -/
theorem length_pushed_eq_two_iff (hhead : frontier.stack.head? = some candidate)
    (h : hunt.expanded? frontier = some candidate.state) :
    (hunt.pushed frontier).length = 2 ↔
      ∃ position slot step, hunt.Forks candidate position slot step := by
  rw [pushed_eq_of_expanded hhead h]
  constructor
  · intro hlength
    obtain ⟨next, hmem⟩ := List.exists_mem_of_length_pos (hlength ▸ Nat.two_pos)
    obtain ⟨position, slot, step, hnext, hstep, _⟩ :=
      mem_successors_iff.1 (List.mem_filter.1 hmem).1
    rw [length_filter_successors hnext hstep] at hlength
    have hadvance : slot.kind = step.kind ∧ candidate.state.step + 1 ≠ hunt.steps.size := by
      by_contra h
      rw [if_neg h] at hlength
      split at hlength <;> omega
    have habsorb : step.isAwaited = true ∧ ¬ candidate.state.run.has slot.kind = true := by
      by_contra h
      rw [if_neg h] at hlength
      split at hlength <;> omega
    exact ⟨position, slot, step, hnext, hstep, hadvance.1, hadvance.2, habsorb.1, habsorb.2⟩
  · rintro ⟨position, slot, step, forks⟩
    rw [length_filter_successors forks.next forks.current, if_pos ⟨forks.completes, forks.more⟩,
      if_pos ⟨forks.awaited, forks.fresh⟩]

/-! ## What turns preserve -/

namespace ReachesIn

variable (reaches : hunt.ReachesIn first turns expanded frontier)

include reaches

theorem toReaches : hunt.Reaches first frontier := by
  induction reaches with
  | start hincomplete => exact .start hincomplete
  | turn _ hturn ih => exact ih.turn hturn

/-- The explored states are those that have been expanded. -/
theorem mem_explored_iff : state ∈ frontier.explored ↔ state ∈ expanded := by
  induction reaches with
  | start => simp
  | turn _ hturn ih => rw [mem_explored_of_turn hturn, ih, List.mem_append, Option.mem_toList]

/-- A state that is expanded has not been expanded before. -/
theorem nodup_append (nodup : expanded.Nodup) :
    ((hunt.expanded? frontier).toList ++ expanded).Nodup := by
  cases hexpanded : hunt.expanded? frontier with
  | none => exact nodup
  | some state =>
      have hnew := (expanded?_eq_some_iff.1 hexpanded).2
      exact List.nodup_cons.2 ⟨fun h => hnew (.inr (reaches.mem_explored_iff.2 h)), nodup⟩

/-- No state is expanded twice. -/
theorem nodup : expanded.Nodup := by
  induction reaches with
  | start => exact List.nodup_nil
  | turn reaches _ ih => exact reaches.nodup_append ih

/-- A state that is expanded belongs to a candidate that has been on the stack. -/
theorem stacked_append
    (hstacked : ∀ state ∈ expanded, ∃ candidate,
      hunt.Stacked first candidate ∧ candidate.state = state) :
    ∀ state ∈ (hunt.expanded? frontier).toList ++ expanded, ∃ candidate,
      hunt.Stacked first candidate ∧ candidate.state = state := by
  intro state hstate
  rcases List.mem_append.1 hstate with hstate | hstate
  · obtain ⟨⟨candidate, hhead, hcandidate⟩, _⟩ :=
      expanded?_eq_some_iff.1 (Option.mem_toList.1 hstate)
    exact ⟨candidate, ⟨frontier, reaches.toReaches, .inl (List.mem_of_mem_head? hhead)⟩, hcandidate⟩
  · exact hstacked state hstate

theorem stacked : ∀ state ∈ expanded, ∃ candidate,
    hunt.Stacked first candidate ∧ candidate.state = state := by
  induction reaches with
  | start => simp
  | turn reaches _ ih => exact reaches.stacked_append ih

/-- Each turn takes one candidate off the stack, and each expanded state has put at most two
there. -/
theorem turns_add_length_le : turns + frontier.stack.length ≤ 2 * expanded.length + 1 := by
  induction reaches with
  | start => exact Nat.le_refl 1
  | @turn turns expanded frontier later _ hturn ih =>
      -- what is expanded pays for the turns that take its two successors off again
      have hpushed := hunt.length_pushed_le frontier
      have hpos : 0 < frontier.stack.length := by
        refine List.length_pos_iff.2 fun hnil => ?_
        rw [Hunt.turn, hnil] at hturn
        contradiction
      rw [stack_of_turn hturn, List.length_append, List.length_append, List.length_tail]
      omega

/-- From every frontier a hunt comes to a turn that ends it. The stack becomes lighter with each
turn, which the recursion of the run rests on. -/
theorem exists_last : ∃ turns expanded last, hunt.ReachesIn first turns expanded last ∧
    (hunt.turn last).outcome? = some (hunt.run frontier) := by
  fun_induction hunt.run frontier generalizing turns expanded with
  | case1 frontier path hturn => exact ⟨turns, expanded, frontier, reaches, by rw [hturn]; rfl⟩
  | case2 frontier explored hturn =>
      exact ⟨turns, expanded, frontier, reaches, by rw [hturn]; rfl⟩
  | case3 frontier later hturn ih => exact ih (reaches.turn hturn)

end ReachesIn

/-- A candidate that is put on the stack looks on from a later position than the one taken off, and
not from beyond the trace. -/
theorem position_of_mem_pushed {next : Candidate} (h : next ∈ hunt.pushed frontier) :
    ∃ candidate, frontier.stack.head? = some candidate ∧
      candidate.state.position < next.state.position ∧
        next.state.position ≤ hunt.slots.size := by
  obtain ⟨candidate, hhead, hnext, _⟩ := mem_successors_of_mem_pushed h
  exact ⟨candidate, hhead, position_of_mem_successors hnext⟩

end Hunt

/-- A compiled pattern has a step. -/
theorem length_steps_pos {source : String} {pattern : Pattern} {kinds : Numbering Kind}
    {steps : List Step} (hcompile : Pattern.compile source = .ok pattern)
    (hsteps : Step.ofTokens? kinds false pattern.tokens = some steps) : 0 < steps.length := by
  obtain ⟨name, edge, following, htokens⟩ := Pattern.tokens_of_compile hcompile
  rw [htokens] at hsteps
  obtain ⟨kind, more, _, _, rfl⟩ := Step.ofTokens?_named hsteps
  exact Nat.succ_pos _

/-- A hunt for a compiled pattern comes to a turn that ends it, from every start, whatever events
are claimed and whatever states are known to fail; with a pattern of one step it takes no turn at
all. On the way to any frontier it has taken at most twice as many turns as there can be states, and
one more. The explored states are those that have been expanded, and no state is expanded twice. The
candidates that come onto the stack look on from later positions than the one that is taken off, up
to the end of the trace. There are at most two of them, and there are two exactly where the
candidate can go on in two ways. -/
theorem hunt_ends {trace : Trace} {source : String} {pattern : Pattern} {steps : List Step}
    {start : Nat} {slot : Slot} (hcompile : Pattern.compile source = .ok pattern)
    (hsteps : Step.ofTokens? (Course.ofTrace trace).kinds false pattern.tokens = some steps)
    (hslot : (Course.ofTrace trace).slots[start]? = some slot) (scan : Scan) (rule : RepeatRule) :
    let hunt := scan.hunt (.ofTrace trace) steps rule
    let first := Candidate.start start slot
    let left := trace.events.length - start
    let states := (steps.length - 1) * left * rule.runLengths left
    ((steps.length = 1 ∧ hunt.fromStart start slot = .found [start]) ∨
      ∃ turns expanded last, hunt.ReachesIn first turns expanded last ∧
        (hunt.turn last).outcome? = some (hunt.fromStart start slot)) ∧
    ∀ turns expanded frontier, hunt.ReachesIn first turns expanded frontier →
      turns ≤ 2 * states + 1 ∧
      (∀ state, state ∈ frontier.explored ↔ state ∈ expanded) ∧
      ((hunt.expanded? frontier).toList ++ expanded).Nodup ∧
      ((hunt.expanded? frontier).toList ++ expanded).length ≤ states ∧
      (∀ later, hunt.turn frontier = .next later →
        later.stack = hunt.pushed frontier ++ frontier.stack.tail) ∧
      (∀ next ∈ hunt.pushed frontier, ∃ candidate, frontier.stack.head? = some candidate ∧
        candidate.state.position < next.state.position ∧
          next.state.position ≤ trace.events.length) ∧
      (hunt.pushed frontier).length ≤ 2 ∧
      ∀ candidate, frontier.stack.head? = some candidate →
        hunt.expanded? frontier = some candidate.state →
          ((hunt.pushed frontier).length = 2 ↔
            ∃ position slot step, hunt.Forks candidate position slot step) := by
  intro hunt first left states
  have hsize : hunt.slots.size = trace.events.length :=
    (Course.size_slots_ofTrace trace).trans List.length_zipIdx
  constructor
  · by_cases hcomplete : hunt.isComplete first = true
    · exact .inl ⟨(beq_iff_eq.1 hcomplete).symm, if_pos hcomplete⟩
    · have hstart : hunt.ReachesIn first 0 [] ⟨[first], ∅⟩ := .start hcomplete
      rw [hstart.toReaches.fromStart_eq]
      exact .inr hstart.exists_last
  · intro turns expanded frontier reaches
    have nodup := reaches.nodup_append reaches.nodup
    have hstates : ((hunt.expanded? frontier).toList ++ expanded).length ≤ states := by
      have hpos : 0 < hunt.steps.size := length_steps_pos hcompile hsteps
      have := Hunt.length_le_of_stacked hslot hpos nodup (reaches.stacked_append reaches.stacked)
      rwa [hsize] at this
    have hturns := reaches.turns_add_length_le
    have hpushed := hunt.length_pushed_le frontier
    have hone : (hunt.expanded? frontier).toList.length ≤ 1 := Option.length_toList_le
    refine ⟨?_, fun state => reaches.mem_explored_iff, nodup, hstates,
      fun later => Hunt.stack_of_turn, fun next hnext => ?_, by omega,
      fun candidate => Hunt.length_pushed_eq_two_iff⟩
    · rw [List.length_append] at hstates
      omega
    · exact hsize ▸ Hunt.position_of_mem_pushed hnext

/-- Three loads, with any events between one and the next. -/
def threeLoads : Pattern :=
  ⟨[.named "load" .opening, .wildcard, .named "load" .opening, .wildcard, .named "load" .opening]⟩

/-- All steps of three loads are of the one kind that there is. -/
theorem exists_steps_threeLoads (times : List Timestamp)
    (h : ∃ placed ∈ (Trace.loadsAt times).placed, placed.1.kind = ("load", .spanBegin)) :
    ∃ kind, (Course.ofTrace (.loadsAt times)).kinds.get? ("load", .spanBegin) = some kind ∧
      Step.ofTokens? (Course.ofTrace (.loadsAt times)).kinds false threeLoads.tokens =
        some [.direct kind, .awaited kind, .awaited kind] := by
  obtain ⟨placed, hplaced, hkind⟩ := h
  obtain ⟨kind, hget⟩ := Option.ne_none_iff_exists'.1 fun hnone =>
    ne_of_get?_kinds_eq_none hnone hplaced hkind
  exact ⟨kind, hget, by simp [threeLoads, Step.ofTokens?, Edge.phase, hget]⟩

/-- The second of three loads completes the step of the first candidate, and its wildcard may take
it. -/
theorem exists_forks_threeLoads {kind : UInt32} {slot : Slot} :
    let trace := Trace.loadsAt [.zero, .zero, .zero]
    let course := Course.ofTrace trace
    course.kinds.get? ("load", .spanBegin) = some kind → course.slots[0]? = some slot →
      ∃ second, (Scan.hunt {} course [.direct kind, .awaited kind, .awaited kind] .noRepeat).Forks
        (Candidate.start 0 slot) 1 second (.awaited kind) := by
  intro trace course hkind hslot
  obtain ⟨event, hevent, stands⟩ := Course.exists_stands hslot
  have hplain : (trace.events[0]?.bind fun event =>
      (Plain.next? ∅ (View.start event) (trace.placed.drop 1)).map fun next =>
        (next.1.1.kind, next.1.2)) = some (("load", .spanBegin), 1) := by
    decide +kernel
  rw [hevent] at hplain
  obtain ⟨⟨⟨second, position⟩, _⟩, hplain, hsame⟩ := Option.map_eq_some_iff.1 hplain
  obtain ⟨hsecond, rfl⟩ := Prod.mk.inj hsame
  have hunts := (Scan.tracks_empty trace [.direct kind, .awaited kind, .awaited kind]
    .noRepeat).huntsThrough
  have hnext := hunts.next?_eq (Shows.start 0 stands)
  rw [show Plain.next? ∅ _ (trace.placed.drop (State.start 0 _).position) = _ from hplain] at hnext
  obtain ⟨_, next, hstands, hfound⟩ := hnext
  exact ⟨next, hfound, rfl, hstands.kind_eq hkind hsecond,
    Nat.ne_of_lt (Nat.lt_succ_self 2), rfl, Bool.false_ne_true⟩

/-- The second of three loads completes a step, or else a wildcard takes it. So the first turn puts
two candidates on the stack. -/
theorem hunt_ends_threeLoads :
    let trace := Trace.loadsAt [.zero, .zero, .zero]
    let course := Course.ofTrace trace
    Pattern.compile "load+ * load+ * load+" = .ok threeLoads ∧
      ∃ steps slot, Step.ofTokens? course.kinds false threeLoads.tokens = some steps ∧
        course.slots[0]? = some slot ∧
        let hunt := Scan.hunt {} course steps .noRepeat
        let first := Candidate.start 0 slot
        let frontier : Frontier := ⟨[first], ∅⟩
        (∃ turns expanded last, hunt.ReachesIn first turns expanded last ∧
          (hunt.turn last).outcome? = some (hunt.fromStart 0 slot) ∧ turns ≤ 37) ∧
        hunt.ReachesIn first 0 [] frontier ∧ hunt.expanded? frontier = some first.state ∧
        (hunt.pushed frontier).length = 2 ∧
        ∀ next ∈ hunt.pushed frontier, 1 < next.state.position ∧ next.state.position ≤ 3 := by
  intro trace course
  have hcompile : Pattern.compile "load+ * load+ * load+" = .ok threeLoads := rfl
  obtain ⟨kind, hkind, hsteps⟩ := exists_steps_threeLoads [.zero, .zero, .zero] (by decide +kernel)
  have hlength : trace.events.length = 3 := by decide +kernel
  have hsize : 0 < course.slots.size := by
    rw [Course.size_slots_ofTrace]
    decide +kernel
  have hslot : course.slots[0]? = some course.slots[0] := Array.getElem?_eq_getElem hsize
  obtain ⟨hends, hturns⟩ := hunt_ends hcompile hsteps hslot {} .noRepeat
  rw [hlength] at hturns
  let first := Candidate.start 0 course.slots[0]
  let hunt := Scan.hunt {} course [.direct kind, .awaited kind, .awaited kind] .noRepeat
  have reaches : hunt.ReachesIn first 0 [] ⟨[first], ∅⟩ := .start Bool.false_ne_true
  have hexpanded : hunt.expanded? ⟨[first], ∅⟩ = some first.state :=
    Hunt.expanded?_eq_some_iff.2 ⟨⟨first, rfl, rfl⟩, by simp [hunt, Scan.hunt]⟩
  obtain ⟨second, forks⟩ := exists_forks_threeLoads hkind hslot
  obtain ⟨_, _, _, _, _, hlater, _, htwo⟩ := hturns 0 [] _ reaches
  refine ⟨hcompile, _, _, hsteps, hslot, ?_, reaches, hexpanded,
    (htwo first rfl hexpanded).2 ⟨1, second, _, forks⟩, fun next hnext => ?_⟩
  · obtain ⟨hone, _⟩ | ⟨turns, expanded, last, hreaches, houtcome⟩ := hends
    · exact absurd hone (by simp)
    · exact ⟨turns, expanded, last, hreaches, houtcome, (hturns _ _ _ hreaches).1⟩
  · obtain ⟨_, hhead, hposition⟩ := hlater next hnext
    cases hhead
    exact hposition

end EventChains.Matching
