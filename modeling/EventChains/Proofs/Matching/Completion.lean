import EventChains.Proofs.Matching.RepeatRules

/-!
# The memory of a hunt is sound

`Hunt.Completes` says when a chain can be completed from a state, without a stack and without any
order in which things are tried. The states that fail are the others (`fails_iff`). So whatever
failing states a hunt remembers, it finds what it would find without them, and after a hunt in vain
all that is remembered fails, also when more events are claimed (`path?_fromStart_of_failed`).
-/

namespace EventChains.Matching

/-- The chain that a hunt has found. -/
def Outcome.path? : Outcome → Option (List Nat)
  | .found path => some path
  | .exhausted _ => none

namespace Hunt

/-- A chain can be completed from a state: all steps are completed, or the next event completes the
current step, or the current wildcard takes it, and a chain can be completed from there. -/
inductive Completes (hunt : Hunt) : State → Prop where
  | done {state : State} (h : state.step = hunt.steps.size) : Completes hunt state
  | advance {state : State} {position : Nat} {slot : Slot} {step : Step}
      (hnext : hunt.next? state = some (position, slot))
      (hstep : hunt.steps[state.step]? = some step) (hkind : slot.kind = step.kind)
      (h : Completes hunt (state.advance position slot)) : Completes hunt state
  | absorb {state : State} {position : Nat} {slot : Slot} {step : Step}
      (hnext : hunt.next? state = some (position, slot))
      (hstep : hunt.steps[state.step]? = some step) (hawaited : step.isAwaited = true)
      (hrepeat : ¬ state.run.has slot.kind = true)
      (h : Completes hunt (state.absorb hunt.rule position slot)) : Completes hunt state

variable {hunt : Hunt} {candidate next : Candidate} {state : State}

/-- What a successor completes, its candidate completes. -/
theorem Completes.of_successor (hnext : next ∈ hunt.successors candidate)
    (h : hunt.Completes next.state) : hunt.Completes candidate.state := by
  obtain ⟨position, slot, step, hfound, hstep, hnext⟩ := mem_successors_iff.1 hnext
  rcases hnext with ⟨hkind, rfl⟩ | ⟨⟨hawaited, hrepeat⟩, rfl⟩
  · exact .advance hfound hstep hkind h
  · exact .absorb hfound hstep hawaited hrepeat h

/-- A search that finds something from a successor finds something from the candidate. -/
theorem isSome_search_of_successor (hnext : next ∈ hunt.successors candidate)
    (h : (hunt.search next).isSome) : (hunt.search candidate).isSome := by
  by_cases hcomplete : hunt.isComplete candidate = true
  · rw [hunt.search_of_isComplete hcomplete]
    rfl
  · rw [hunt.search_of_not_isComplete hcomplete, List.findSome?_isSome_iff]
    exact ⟨next, hnext, h⟩

/-- The search finds a chain exactly where one can be completed. -/
theorem isSome_search_iff :
    (hunt.search candidate).isSome ↔ hunt.Completes candidate.state := by
  constructor
  · intro h
    fun_induction hunt.search candidate with
    | case1 candidate hcomplete => exact .done (beq_iff_eq.1 hcomplete)
    | case2 candidate hincomplete ih =>
        obtain ⟨⟨next, hnext⟩, _, hsome⟩ := List.findSome?_isSome_iff.1 h
        exact .of_successor hnext (ih ⟨next, hnext⟩ hsome)
  · intro h
    generalize hstate : candidate.state = state at h
    -- the events taken before play no part, so the induction is on the way from the state on
    induction h generalizing candidate with
    | done h =>
        rw [hunt.search_of_isComplete (beq_iff_eq.2 (hstate ▸ h))]
        rfl
    | @advance state position slot step hnext hstep hkind _ ih =>
        subst hstate
        have hmem : candidate.advance position slot ∈ hunt.successors candidate :=
          mem_successors_iff.2 ⟨position, slot, step, hnext, hstep, .inl ⟨hkind, rfl⟩⟩
        exact isSome_search_of_successor hmem (ih rfl)
    | @absorb state position slot step hnext hstep hawaited hrepeat _ ih =>
        subst hstate
        have hmem : candidate.absorb hunt.rule position slot ∈ hunt.successors candidate :=
          mem_successors_iff.2
            ⟨position, slot, step, hnext, hstep, .inr ⟨⟨hawaited, hrepeat⟩, rfl⟩⟩
        exact isSome_search_of_successor hmem (ih rfl)

/-- The states that fail are those from which no chain can be completed. -/
theorem fails_iff : hunt.Fails state ↔ ¬ hunt.Completes state := by
  have h : (hunt.search ⟨state, []⟩).isSome ↔ hunt.Completes state := isSome_search_iff
  rw [Fails, ← h, Option.not_isSome_iff_eq_none]

/-- The search does not look at what is remembered. -/
theorem search_eq_of_failed (failed : Std.HashSet State) (candidate : Candidate) :
    { hunt with failed := failed }.search candidate = hunt.search candidate := by
  fun_induction hunt.search candidate with
  | case1 candidate hcomplete => exact search_of_isComplete _ hcomplete
  | case2 candidate hincomplete ih =>
      rw [search]
      refine (if_neg hincomplete).trans ?_
      exact congrArg (fun search => (hunt.successors candidate).attach.findSome? search) (funext ih)

/-- A hunt finds what the search finds, if all that it remembers fails. -/
theorem path?_fromStart (hfailed : ∀ state ∈ hunt.failed, hunt.Fails state) (position : Nat)
    (slot : Slot) :
    (hunt.fromStart position slot).path? = hunt.search (Candidate.start position slot) := by
  have hspec := fromStart_spec hfailed position slot
  split at hspec
  · rename_i houtcome
    rw [houtcome, hspec]
    rfl
  · rename_i houtcome
    rw [houtcome, hspec.1]
    rfl

end Hunt

variable {course : Course} {steps : List Step} {rule : RepeatRule} {scan : Scan}

/-- What a scan remembers after a hunt in vain fails, if what it remembered before does. -/
theorem Scan.fails_of_mem_record
    (hfailed : ∀ state ∈ scan.failed, (scan.hunt course steps rule).Fails state) {position : Nat}
    {slot : Slot} (hvain : ((scan.hunt course steps rule).fromStart position slot).path? = none) :
    ∀ state ∈ (scan.record ((scan.hunt course steps rule).fromStart position slot)).failed,
      (scan.hunt course steps rule).Fails state := by
  have hspec : match (scan.hunt course steps rule).fromStart position slot with
      | .found path => _
      | .exhausted explored => _ ∧ ∀ state ∈ explored, (scan.hunt course steps rule).Fails state :=
    Hunt.fromStart_spec hfailed position slot
  cases houtcome : (scan.hunt course steps rule).fromStart position slot with
  | found path =>
      rw [houtcome] at hvain
      contradiction
  | exhausted explored =>
      rw [houtcome] at hspec
      exact fun state hstate => (mem_failed_record.1 hstate).elim (hfailed state) (hspec.2 state)

/-- Whatever failing states are remembered, a hunt finds the chain that it finds without them. After
a hunt in vain no chain can be completed from any state that is then remembered, neither with the
events claimed so far nor with more of them. This holds for every course and all steps, so for those
of every trace and every pattern, and for every position. -/
theorem path?_fromStart_of_failed
    (hfailed : ∀ state ∈ scan.failed, ¬ (scan.hunt course steps rule).Completes state)
    (position : Nat) (slot : Slot) :
    let outcome := (scan.hunt course steps rule).fromStart position slot
    let fresh := { scan with failed := ∅ }.hunt course steps rule
    outcome.path? = (fresh.fromStart position slot).path? ∧
      (outcome.path? = none → ∀ state ∈ (scan.record outcome).failed, ∀ later : Scan,
        (∀ claimed ∈ scan.claimed, claimed ∈ later.claimed) →
          ¬ (later.hunt course steps rule).Completes state) := by
  intro outcome fresh
  have hfails : ∀ state ∈ scan.failed, (scan.hunt course steps rule).Fails state :=
    fun state hstate => Hunt.fails_iff.2 (hfailed state hstate)
  constructor
  · have hfresh : (fresh.fromStart position slot).path? =
        fresh.search (Candidate.start position slot) :=
      Hunt.path?_fromStart (by simp [fresh, Scan.hunt]) position slot
    rw [hfresh, Hunt.path?_fromStart hfails]
    exact (Hunt.search_eq_of_failed ∅ _).symm
  · intro hvain state hstate later hmore
    have narrows : Hunt.Narrows (later.hunt course steps rule) (scan.hunt course steps rule) :=
      ⟨rfl, rfl, rfl, hmore⟩
    exact Hunt.fails_iff.1 ((Scan.fails_of_mem_record hfails hvain state hstate).of_narrows narrows)

/-- While the second event of a load is claimed, no chain starts with the first one. A hunt that
remembers so finds none either, and remembers nothing that could be completed when the third event
is claimed too. -/
theorem path?_fromStart_of_failed_load :
    let course := Course.ofTrace .load
    ∃ steps slot, Step.ofTokens? course.kinds false Pattern.load.tokens = some steps ∧
      course.slots[0]? = some slot ∧
      let scan : Scan := { claimed := {1}, failed := {State.start 0 slot} }
      let later : Scan := { claimed := {1, 2} }
      let outcome := (scan.hunt course steps .noRepeat).fromStart 0 slot
      let fresh := { scan with failed := ∅ }.hunt course steps .noRepeat
      (∀ state ∈ scan.failed, ¬ (scan.hunt course steps .noRepeat).Completes state) ∧
        (fresh.fromStart 0 slot).path? = none ∧
        outcome.path? = (fresh.fromStart 0 slot).path? ∧
        ∀ state ∈ (scan.record outcome).failed,
          ¬ (later.hunt course steps .noRepeat).Completes state := by
  intro course
  obtain ⟨steps, hsteps⟩ := exists_steps_load
  have hsize : 0 < course.slots.size := by
    rw [Course.size_slots_ofTrace]
    decide +kernel
  obtain ⟨event, stands, hplaced⟩ := Course.slot_stands hsize
  refine ⟨steps, course.slots[0], hsteps, Array.getElem?_eq_getElem hsize, ?_⟩
  intro scan later outcome fresh
  have hhead : Trace.load.placed.head? = some (event, 0) := congrArg List.head? hplaced
  have hshortest : (Trace.load.placed.head?.bind fun start =>
      shortest? .noRepeat Pattern.load.tokens.tail
        (beforeClaimed {1} ((View.start start.1).walk (Trace.load.placed.drop 1)))) = none := by
    decide +kernel
  rw [hhead] at hshortest
  have tracks : Scan.Tracks { claimed := {1} } .load steps .noRepeat {1} :=
    ⟨fun {position} => by simp [eq_comm (a := position)], by simp⟩
  have separated := Pattern.separated_of_compile Pattern.compile_load
  have hvain : (fresh.fromStart 0 course.slots[0]).path? = none := by
    cases houtcome : fresh.fromStart 0 course.slots[0] with
    | found path =>
        obtain ⟨taken, htaken, _⟩ :=
          (found_iff kindsFit_load separated.tail hsteps tracks stands).1 houtcome
        have := hshortest.symm.trans (shortest?_eq_some_iff.2 htaken)
        contradiction
    | exhausted explored => rfl
  have hfails : ∀ state ∈ scan.failed,
      ¬ (scan.hunt course steps .noRepeat).Completes state := by
    intro state hstate
    obtain rfl : State.start 0 course.slots[0] = state := by simpa [scan] using hstate
    -- what a hunt may do from a state does not depend on what it remembers
    rw [Hunt.path?_fromStart (by simp [fresh, Scan.hunt])] at hvain
    have hsearch : (scan.hunt course steps .noRepeat).search _ = none :=
      (Hunt.search_eq_of_failed ∅ _).symm.trans hvain
    exact Hunt.fails_iff.1 ((Hunt.search_eq_none_iff _ _).1 hsearch)
  obtain ⟨hsame, hrecorded⟩ := path?_fromStart_of_failed hfails 0 course.slots[0]
  refine ⟨hfails, hvain, hsame, fun state hstate => ?_⟩
  exact hrecorded (hsame.trans hvain) state hstate later (by simp [scan, later])

end EventChains.Matching
