import EventChains.Proofs.Matching.Memory

/-!
# Ways to complete a chain

A way leads from a state to a complete one, step by step like a search but without an order in which
things are tried (`Way`). Without the repeat rule a search takes the first events of every way from
its state (`Way.exists_search`), so it finds the shortest one: by `Way.exchange` nothing is lost by
completing a step as soon as possible. Under the rule there are fewer ways, so whatever is found
under the rule, a start of it is found without (`Loosens.exists_found`). All this is about the
numbers of kinds, and holds whether or not they tell the kinds apart.
-/

namespace EventChains.Matching

/-- A state that has completed its step without an event. -/
def State.onward (state : State) : State :=
  { state with step := state.step + 1, run := [] }

/-- A state that has forgotten which kinds the current wildcard has taken. -/
def State.forget (state : State) : State :=
  { state with run := [] }

/-- Without the repeat rule a wildcard only takes the event. -/
theorem State.absorb_unrestricted {state : State} {position : Nat} {slot : Slot} :
    state.absorb .unrestricted position slot = state.take position slot :=
  rfl

namespace Hunt

/-- A way from a state to a complete one, by the positions that it takes. -/
inductive Way (hunt : Hunt) : State → List Nat → Prop where
  | done {state : State} (h : state.step = hunt.steps.size) : Way hunt state []
  | advance {state : State} {position : Nat} {slot : Slot} {step : Step} {path : List Nat}
      (hnext : hunt.next? state = some (position, slot))
      (hstep : hunt.steps[state.step]? = some step) (hkind : slot.kind = step.kind)
      (way : Way hunt (state.advance position slot) path) : Way hunt state (position :: path)
  | absorb {state : State} {position : Nat} {slot : Slot} {step : Step} {path : List Nat}
      (hnext : hunt.next? state = some (position, slot))
      (hstep : hunt.steps[state.step]? = some step) (hawaited : step.isAwaited = true)
      (hrepeat : ¬ state.run.has slot.kind = true)
      (way : Way hunt (state.absorb hunt.rule position slot) path) :
      Way hunt state (position :: path)

/-- Some events come into view one after the other, and are taken without a look at the steps. -/
inductive Passes (hunt : Hunt) : State → List Nat → State → Prop where
  | nil {state : State} : Passes hunt state [] state
  | cons {state later : State} {position : Nat} {slot : Slot} {path : List Nat}
      (hnext : hunt.next? state = some (position, slot))
      (passes : Passes hunt (state.take position slot) path later) :
      Passes hunt state (position :: path) later

variable {hunt : Hunt} {state later : State} {position : Nat} {slot : Slot} {step : Step}
  {path passed more found : List Nat}

/-- What a search finds is a way, after what has been taken before. -/
theorem exists_way_of_search {candidate : Candidate} (h : hunt.search candidate = some path) :
    ∃ more, hunt.Way candidate.state more ∧ candidate.taken.reverse ++ more = path := by
  fun_induction hunt.search candidate with
  | case1 candidate hcomplete =>
      cases h
      exact ⟨[], .done (by simpa [isComplete] using hcomplete), List.append_nil _⟩
  | case2 candidate _ ih =>
      obtain ⟨⟨next, hmem⟩, _, hnext⟩ := List.exists_of_findSome?_eq_some h
      obtain ⟨more, way, rfl⟩ := ih ⟨next, hmem⟩ hnext
      obtain ⟨position, slot, step, hfound, hstep, hcase⟩ := mem_successors_iff.1 hmem
      refine ⟨position :: more, ?_, ?_⟩
      · rcases hcase with ⟨hkind, rfl⟩ | ⟨⟨hawaited, hrepeat⟩, rfl⟩
        · exact .advance hfound hstep hkind way
        · exact .absorb hfound hstep hawaited hrepeat way
      · rcases hcase with ⟨_, rfl⟩ | ⟨_, rfl⟩ <;>
          simp [Candidate.advance, Candidate.absorb]

/-- What a search finds is a way. -/
theorem way_of_search (h : hunt.search ⟨state, []⟩ = some path) : hunt.Way state path := by
  obtain ⟨more, way, rfl⟩ := exists_way_of_search h
  exact way

/-- After the next event there is less left to look at. -/
theorem left_lt_of_next? (hnext : hunt.next? state = some (position, slot)) :
    hunt.slots.size + 1 - (position + 1) < hunt.slots.size + 1 - state.position := by
  have := hunt.next?_bounds hnext
  omega

/-- The next event does not depend on the current step. -/
theorem next?_onward : hunt.next? state.onward = hunt.next? state :=
  next?_congr rfl rfl rfl

namespace Passes

theorem step_eq (passes : hunt.Passes state passed later) : later.step = state.step := by
  induction passes with
  | nil => rfl
  | cons _ _ ih => exact ih

/-- The events come into view whichever step is the current one. -/
theorem onward (passes : hunt.Passes state passed later) :
    hunt.Passes state.onward passed later.onward := by
  induction passes with
  | nil => exact .nil
  | cons hnext _ ih => exact .cons (next?_onward.trans hnext) ih

theorem concat (passes : hunt.Passes state passed later)
    (hnext : hunt.next? later = some (position, slot)) :
    hunt.Passes state (passed ++ [position]) (later.take position slot) := by
  induction passes with
  | nil => exact .cons hnext .nil
  | cons hfirst _ ih => exact .cons hfirst (ih hnext)

end Passes

/-! ## Without the repeat rule -/

namespace Way

/-- A wildcard may take all events up to where a way starts. -/
theorem absorb_all (free : hunt.rule = .unrestricted) (hrun : state.run = [])
    (hstep : hunt.steps[state.step]? = some step) (hawaited : step.isAwaited = true)
    (passes : hunt.Passes state passed later) (way : hunt.Way later more) :
    hunt.Way state (passed ++ more) := by
  induction passes with
  | nil => exact way
  | @cons state later position slot _ hnext _ ih =>
      refine .absorb hnext hstep hawaited (by simp [hrun, SortedSet.has]) ?_
      rw [free, State.absorb_unrestricted]
      exact ih hrun hstep way

/-- A way passes some events, of which the last one completes the current step. -/
theorem exists_onward (free : hunt.rule = .unrestricted) (hrun : state.run = [])
    (hincomplete : state.step ≠ hunt.steps.size) (way : hunt.Way state path) :
    ∃ passed later more, hunt.Passes state passed later ∧ hunt.Way later.onward more ∧
      passed ++ more = path := by
  induction way with
  | done h => exact absurd h hincomplete
  | @advance state position slot _ path hnext _ _ way _ =>
      exact ⟨[position], state.take position slot, path, .cons hnext .nil, way, rfl⟩
  | @absorb state position slot _ path hnext _ _ _ _ ih =>
      rw [free, State.absorb_unrestricted] at ih
      obtain ⟨passed, later, more, passes, way, rfl⟩ := ih hrun hincomplete
      exact ⟨position :: passed, later, more, .cons hnext passes, way, rfl⟩

/-- If there is a way from a state, and a way that starts when some more events have passed, there
is one from the state that ends no later than the second one. -/
theorem exchange (free : hunt.rule = .unrestricted) (hrun : state.run = [])
    (way : hunt.Way state found) (passes : hunt.Passes state passed later)
    (other : hunt.Way later more) : ∃ path, hunt.Way state path ∧ path <+: passed ++ more := by
  induction way generalizing passed later more with
  | done h => exact ⟨[], .done h, List.nil_prefix⟩
  | absorb _ hstep hawaited _ _ _ =>
      exact ⟨_, absorb_all free hrun hstep hawaited passes other, List.prefix_rfl⟩
  | @advance state position slot step _ hnext hstep hkind _ ih =>
      by_cases hawaited : step.isAwaited = true
      · exact ⟨_, absorb_all free hrun hstep hawaited passes other, List.prefix_rfl⟩
      · -- the second way completes the current step with its first event
        have hlater : hunt.steps[later.step]? = some step := passes.step_eq ▸ hstep
        cases other with
        | done h =>
            rw [h, Array.getElem?_size] at hlater
            contradiction
        | absorb _ hother hotherAwaited _ _ =>
            cases hlater.symm.trans hother
            contradiction
        | advance hotherNext hother hotherKind other =>
            cases passes with
            | nil => exact ⟨_, .advance hotherNext hother hotherKind other, List.prefix_rfl⟩
            | cons hfirst passes =>
                cases hnext.symm.trans hfirst
                obtain ⟨path, way, hpre⟩ :=
                  ih rfl (passes.onward.concat (next?_onward.trans hotherNext)) other
                rw [List.append_assoc] at hpre
                exact ⟨_, .advance hnext hstep hkind way, (List.prefix_cons_inj _).2 hpre⟩

/-- If the current step can be completed at once, doing so ends no later than doing it on a way. -/
theorem exists_sooner (free : hunt.rule = .unrestricted) (hrun : state.run = [])
    (hincomplete : state.step ≠ hunt.steps.size) (way : hunt.Way state path)
    (atOnce : hunt.Way state.onward found) :
    ∃ fewer, hunt.Way state.onward fewer ∧ fewer <+: path := by
  obtain ⟨passed, later, more, passes, other, rfl⟩ := exists_onward free hrun hincomplete way
  exact exchange free rfl atOnce passes.onward other

/-- A search finds a start of every way. -/
theorem exists_search (free : hunt.rule = .unrestricted) (hrun : state.run = [])
    (way : hunt.Way state path) :
    ∃ fewer, hunt.search ⟨state, []⟩ = some fewer ∧ fewer <+: path := by
  -- the induction is not on the way: one that completes a step sooner is no part of it
  induction hmeasure : hunt.slots.size + 1 - state.position using Nat.strongRecOn
    generalizing state path with
  | ind measure ih =>
      cases way with
      | done h =>
          have hcomplete : hunt.isComplete ⟨state, []⟩ = true := by simpa [isComplete] using h
          exact ⟨[], hunt.search_of_isComplete hcomplete, List.prefix_rfl⟩
      | @advance _ position slot step path hnext hstep hkind way =>
          have hshorter := hmeasure ▸ left_lt_of_next? hnext
          obtain ⟨fewer, hfewer, hpre⟩ := ih _ hshorter rfl way rfl
          refine ⟨position :: fewer, ?_, (List.prefix_cons_inj _).2 hpre⟩
          rw [hunt.search_of_next?_eq_some hnext hstep, if_pos hkind, hfewer]
          rfl
      | @absorb _ position slot step path hnext hstep hawaited hrepeat way =>
          have hshorter := hmeasure ▸ left_lt_of_next? hnext
          have hrunTake : (state.take position slot).run = [] := hrun
          have hincomplete : (state.take position slot).step ≠ hunt.steps.size :=
            Nat.ne_of_lt (Array.getElem?_eq_some_iff.1 hstep).1
          rw [hunt.search_of_next?_eq_some hnext hstep]
          rw [free, State.absorb_unrestricted] at way ⊢
          cases hadvance : (if slot.kind = step.kind then
              hunt.search ⟨state.advance position slot, []⟩ else none) with
          | none =>
              obtain ⟨fewer, hfewer, hpre⟩ := ih _ hshorter hrunTake way rfl
              refine ⟨position :: fewer, ?_, (List.prefix_cons_inj _).2 hpre⟩
              rw [if_pos ⟨hawaited, hrepeat⟩, hfewer]
              rfl
          | some first =>
              -- the search completes the step at once, although the way goes on with the wildcard
              have hsearch : hunt.search ⟨(state.take position slot).onward, []⟩ = some first := by
                split at hadvance
                · exact hadvance
                · contradiction
              obtain ⟨path, sooner, hpath⟩ :=
                exists_sooner free hrunTake hincomplete way (way_of_search hsearch)
              obtain ⟨fewer, hfewer, hpre⟩ := ih _ hshorter rfl sooner rfl
              cases hsearch.symm.trans hfewer
              exact ⟨position :: first, rfl, (List.prefix_cons_inj _).2 (hpre.trans hpath)⟩

end Way

/-! ## With and without the rule -/

/-- A hunt without the repeat rule that may use all events that another one may use. -/
structure Loosens (strict free : Hunt) : Prop where
  slots : strict.slots = free.slots
  steps : strict.steps = free.steps
  rule : free.rule = .unrestricted
  claimed : ∀ position ∈ free.claimed, position ∈ strict.claimed

namespace Loosens

variable {strict free : Hunt}

theorem next?_forget (loosens : strict.Loosens free)
    (h : strict.next? state = some (position, slot)) :
    free.next? state.forget = some (position, slot) := by
  rw [← next?_of_claimed loosens.slots loosens.claimed h]
  exact next?_congr rfl rfl rfl

/-- A way under some rule is one without the rule. -/
theorem way (loosens : strict.Loosens free) (h : strict.Way state path) :
    free.Way state.forget path := by
  induction h with
  | done h => exact .done (h.trans (congrArg Array.size loosens.steps))
  | advance hnext hstep hkind _ ih =>
      exact .advance (loosens.next?_forget hnext) (loosens.steps ▸ hstep) hkind ih
  | absorb hnext hstep hawaited _ _ ih =>
      refine .absorb (loosens.next?_forget hnext) (loosens.steps ▸ hstep) hawaited ?_ ?_
      · simp [State.forget, SortedSet.has]
      · rw [loosens.rule, State.absorb_unrestricted]
        exact ih

/-- Where a hunt finds a chain, one without the repeat rule finds a start of it. -/
theorem exists_found (loosens : strict.Loosens free)
    (hstrict : ∀ state ∈ strict.failed, strict.Fails state)
    (hfree : ∀ state ∈ free.failed, free.Fails state)
    (h : strict.fromStart position slot = .found path) :
    ∃ fewer, free.fromStart position slot = .found fewer ∧ fewer <+: path := by
  obtain ⟨more, way, rfl⟩ := exists_way_of_search ((fromStart_eq_found_iff hstrict).1 h)
  obtain ⟨fewer, hfewer, hpre⟩ := (loosens.way way).exists_search loosens.rule rfl
  refine ⟨position :: fewer, (fromStart_eq_found_iff hfree).2 ?_, (List.prefix_cons_inj _).2 hpre⟩
  rw [search_eq_map]
  exact congrArg _ hfewer

end Loosens

end Hunt

end EventChains.Matching
