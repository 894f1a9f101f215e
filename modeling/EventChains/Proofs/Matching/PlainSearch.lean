import EventChains.Proofs.CompiledPattern
import EventChains.Proofs.Matching.CourseCoding
import EventChains.Proofs.Matching.Memory
import EventChains.Proofs.Matching.Plain

/-!
# A hunt completes tokens

A hunt works on the numbers of a course and on the steps of a pattern, plain matching on events and
tokens. `search_eq_complete` says that from a state that follows some tokens the two find the same
positions.
-/

namespace EventChains.Matching

/-- A hunt through a trace, with the positions that earlier chains have claimed. -/
structure HuntsThrough (hunt : Hunt) (trace : Trace) (claimed : Finset Nat) : Prop where
  slots : hunt.slots = (Course.ofTrace trace).slots
  claimed : ∀ {position}, position ∈ hunt.claimed ↔ position ∈ claimed

/-- A state of a hunt stands before some tokens, with what a walk has in view and with the kinds
that a wildcard before the tokens has taken. -/
structure Follows (hunt : Hunt) (trace : Trace) (state : State) (tokens : List Token)
    (absorbed : Finset Kind) (view : View) : Prop where
  shown : Shows state view
  step_le : state.step ≤ hunt.steps.size
  steps : Step.ofTokens? (Course.ofTrace trace).kinds false tokens =
    some (hunt.steps.toList.drop state.step)
  run : match hunt.rule with
    | .noRepeat => Codes (Course.ofTrace trace).kinds state.run absorbed
    | .unrestricted => state.run = []

/-- A named token makes a step. -/
theorem Step.ofTokens?_named {kinds : Numbering Kind} {afterWildcard : Bool} {name : String}
    {edge : Edge} {tokens : List Token} {steps : List Step}
    (h : ofTokens? kinds afterWildcard (.named name edge :: tokens) = some steps) :
    ∃ kind more, kinds.get? (name, edge.phase) = some kind ∧
      ofTokens? kinds false tokens = some more ∧
      steps = (if afterWildcard then .awaited kind else .direct kind) :: more := by
  rw [ofTokens?] at h
  obtain ⟨kind, hkind, h⟩ := Option.bind_eq_some_iff.1 h
  obtain ⟨more, hmore, h⟩ := Option.bind_eq_some_iff.1 h
  exact ⟨kind, more, hkind, hmore, (Option.some.inj h).symm⟩

variable {hunt : Hunt} {trace : Trace} {claimed : Finset Nat} {state : State} {tokens : List Token}
  {absorbed : Finset Kind} {view : View} {slot : Slot} {event : Event}

/-- A hunt and plain matching find the same next event. -/
theorem HuntsThrough.next?_eq (hunts : HuntsThrough hunt trace claimed)
    (shown : Shows state view) :
    match Plain.next? claimed view (trace.placed.drop state.position) with
    | none => hunt.next? state = none
    | some ((event, found), later) =>
        later = trace.placed.drop (found + 1) ∧ ∃ slot, (Course.ofTrace trace).Stands slot event ∧
          hunt.next? state = some (found, slot) := by
  have hnext := shown.nextInView?_eq trace state.position
  rw [Plain.next?, Hunt.next?, hunts.slots]
  cases hview : view.next? (trace.placed.drop state.position) with
  | none =>
      rw [hview] at hnext
      rw [hnext]
      rfl
  | some next =>
      obtain ⟨⟨event, found⟩, later⟩ := next
      rw [hview] at hnext
      obtain ⟨hlater, slot, stands, hfound⟩ := hnext
      by_cases hclaimed : found ∈ claimed
      · have : hunt.claimed.contains found = true := hunts.claimed.2 hclaimed
        simp [Option.filter, hclaimed, hfound, this]
      · have : hunt.claimed.contains found = false := by
          simpa using mt hunts.claimed.1 hclaimed
        simpa [Option.filter, hclaimed, hfound, this] using ⟨hlater, stands⟩

namespace Follows

/-- The steps that remain start with the step of the next token. -/
theorem step_eq_some {step : Step} {more : List Step}
    (h : hunt.steps.toList.drop state.step = step :: more) :
    hunt.steps[state.step]? = some step ∧ hunt.steps.toList.drop (state.step + 1) = more := by
  constructor
  · rw [← Array.getElem?_toList, ← Nat.add_zero state.step, ← List.getElem?_drop, h]
    rfl
  · rw [← List.drop_drop, h]
    rfl

/-- A wildcard of the hunt refuses the kinds that the wildcard of plain matching refuses. -/
theorem has_run_iff (follows : Follows hunt trace state tokens absorbed view)
    (stands : (Course.ofTrace trace).Stands slot event) :
    state.run.has slot.kind = true ↔ hunt.rule = .noRepeat ∧ event.kind ∈ absorbed := by
  have hrun := follows.run
  cases hrule : hunt.rule with
  | noRepeat =>
      rw [hrule] at hrun
      simp [hrun.has_iff stands.kind]
  | unrestricted =>
      rw [hrule] at hrun
      simp [show state.run = [] from hrun, SortedSet.has]

/-- A completed step leads to the tokens after the one that it stands for. -/
theorem advance {step : Step} {more : List Step} {following : List Token}
    (follows : Follows hunt trace state tokens absorbed view)
    (hsteps : hunt.steps.toList.drop state.step = step :: more)
    (hfollowing : Step.ofTokens? (Course.ofTrace trace).kinds false following = some more)
    (position : Nat) (stands : (Course.ofTrace trace).Stands slot event) :
    Follows hunt trace (state.advance position slot) following ∅ (view.after event) where
  shown :=
    let taken := follows.shown.take position stands
    ⟨taken.scopes, taken.flows⟩
  step_le := by
    have := (Array.getElem?_eq_some_iff.1 (step_eq_some hsteps).1).1
    exact this
  steps := by
    rw [hfollowing]
    exact congrArg some (step_eq_some hsteps).2.symm
  run := by
    split
    · exact Codes.empty
    · rfl

/-- After a wildcard has taken an event, the hunt still stands before it. -/
theorem absorb (fit : trace.KindsFit)
    (follows : Follows hunt trace state tokens absorbed view) (position : Nat)
    (stands : (Course.ofTrace trace).Stands slot event) :
    Follows hunt trace (state.absorb hunt.rule position slot) tokens (insert event.kind absorbed)
      (view.after event) where
  shown :=
    let taken := follows.shown.take position stands
    ⟨taken.scopes, taken.flows⟩
  step_le := follows.step_le
  steps := follows.steps
  run := by
    have hrun := follows.run
    unfold State.absorb
    cases hrule : hunt.rule with
    | noRepeat =>
        rw [hrule] at hrun
        exact hrun.insert fit.tellsApart stands.kind
    | unrestricted =>
        rw [hrule] at hrun
        exact hrun

end Follows

/-- The event completes the step of a named token exactly if it is of the token's kind. -/
theorem kind_eq_iff (fit : trace.KindsFit) {kind : Kind} {n : UInt32}
    (hkind : (Course.ofTrace trace).kinds.get? kind = some n)
    (stands : (Course.ofTrace trace).Stands slot event) : slot.kind = n ↔ event.kind = kind :=
  ⟨fun h => fit.tellsApart (h ▸ stands.kind) hkind, stands.kind_eq hkind⟩

namespace Follows

/-- A state that has completed all steps has found its chain. -/
theorem search_of_nil (follows : Follows hunt trace state tokens absorbed view)
    (h : hunt.steps.toList.drop state.step = []) : hunt.search ⟨state, []⟩ = some [] := by
  have hge : hunt.steps.size ≤ state.step := by simpa using List.drop_eq_nil_iff.1 h
  have hcomplete : hunt.isComplete ⟨state, []⟩ = true :=
    beq_iff_eq.2 (Nat.le_antisymm follows.step_le hge)
  exact hunt.search_of_isComplete hcomplete

/-- Before a named token a search needs a next event. -/
theorem search_of_none {step : Step} {more : List Step}
    (hsteps : hunt.steps.toList.drop state.step = step :: more) (hnext : hunt.next? state = none) :
    hunt.search ⟨state, []⟩ = none := by
  have hlt := (Array.getElem?_eq_some_iff.1 (step_eq_some hsteps).1).1
  exact hunt.search_of_next?_eq_none (Nat.ne_of_lt hlt) hnext

variable {name : String} {edge : Edge} {following : List Token} {position : Nat}

/-- Before a named token a search goes on if the next event is of the token's kind. -/
theorem search_named (fit : trace.KindsFit)
    (follows : Follows hunt trace state (.named name edge :: following) absorbed view)
    (hnext : hunt.next? state = some (position, slot))
    (stands : (Course.ofTrace trace).Stands slot event) :
    hunt.search ⟨state, []⟩ =
      if event.kind = (name, edge.phase) then
        (hunt.search ⟨state.advance position slot, []⟩).map (position :: ·)
      else none := by
  obtain ⟨n, more, hkind, _, hsteps⟩ := Step.ofTokens?_named follows.steps
  rw [hunt.search_of_next?_eq_some hnext (step_eq_some hsteps).1]
  simp only [Step.kind, Step.isAwaited, Bool.false_eq_true, if_false, false_and,
    kind_eq_iff fit hkind stands, Option.or_none]
  split <;> rfl

/-- Before a wildcard and a named token a search also goes on if the wildcard may take the next
event. -/
theorem search_wildcard (fit : trace.KindsFit)
    (follows : Follows hunt trace state (.wildcard :: .named name edge :: following) absorbed view)
    (hnext : hunt.next? state = some (position, slot))
    (stands : (Course.ofTrace trace).Stands slot event) :
    hunt.search ⟨state, []⟩ =
      (if event.kind = (name, edge.phase) then
        (hunt.search ⟨state.advance position slot, []⟩).map (position :: ·)
      else none).or
      (if hunt.rule = .noRepeat ∧ event.kind ∈ absorbed then none
      else (hunt.search ⟨state.absorb hunt.rule position slot, []⟩).map (position :: ·)) := by
  obtain ⟨n, more, hkind, _, hsteps⟩ := Step.ofTokens?_named follows.steps
  rw [hunt.search_of_next?_eq_some hnext (step_eq_some hsteps).1]
  simp only [Step.kind, Step.isAwaited, if_true, true_and, kind_eq_iff fit hkind stands,
    follows.has_run_iff stands, ite_not, Option.map_or]
  congr 1
  · split <;> rfl
  · split <;> rfl

end Follows

/-- From a state that follows some tokens, a search finds the positions that complete them. -/
theorem search_eq_complete (fit : trace.KindsFit) (hunts : HuntsThrough hunt trace claimed)
    (separated : Pattern.Separated tokens)
    (follows : Follows hunt trace state tokens absorbed view) :
    hunt.search ⟨state, []⟩ =
      Plain.complete hunt.rule claimed tokens absorbed view
        (trace.placed.drop state.position) := by
  -- the induction is on the number of events that have not been looked at
  induction hlength : (trace.placed.drop state.position).length using Nat.strongRecOn
    generalizing state tokens absorbed view with
  | ind length ih =>
      have hnext := hunts.next?_eq follows.shown
      cases tokens with
      | nil =>
          rw [Plain.complete_nil]
          exact follows.search_of_nil (Option.some.inj follows.steps).symm
      | cons token following =>
          have hfollowing : Pattern.Separated following := separated.tail
          cases token with
          | named name edge =>
              obtain ⟨n, more, _, hmore, hsteps⟩ := Step.ofTokens?_named follows.steps
              cases hplain : Plain.next? claimed view (trace.placed.drop state.position) with
              | none =>
                  rw [hplain] at hnext
                  rw [Plain.complete_named_of_none hplain, Follows.search_of_none hsteps hnext]
              | some next =>
                  obtain ⟨⟨event, position⟩, later⟩ := next
                  rw [hplain] at hnext
                  obtain ⟨rfl, slot, stands, hfound⟩ := hnext
                  have hadvance := follows.advance hsteps hmore position stands
                  have hshorter := Plain.length_lt_of_next? claimed hplain
                  rw [Plain.complete_named_of_some hplain, follows.search_named fit hfound stands,
                    ih _ (hlength ▸ hshorter) hfollowing hadvance rfl]
                  rfl
          | wildcard =>
              cases following with
              | nil =>
                  rw [Plain.complete_wildcard_nil]
                  exact follows.search_of_nil (Option.some.inj follows.steps).symm
              | cons token following =>
                  cases token with
                  | wildcard => exact absurd ⟨rfl, rfl⟩ (List.isChain_cons_cons.1 separated).1
                  | named name edge =>
                      -- one step of the search stands for both tokens
                      obtain ⟨n, more, _, hmore, hsteps⟩ := Step.ofTokens?_named follows.steps
                      cases hplain :
                          Plain.next? claimed view (trace.placed.drop state.position) with
                      | none =>
                          rw [hplain] at hnext
                          rw [Plain.complete_wildcard_of_none hplain,
                            Plain.complete_named_of_none hplain,
                            Follows.search_of_none hsteps hnext]
                      | some next =>
                          obtain ⟨⟨event, position⟩, later⟩ := next
                          rw [hplain] at hnext
                          obtain ⟨rfl, slot, stands, hfound⟩ := hnext
                          have hadvance := follows.advance hsteps hmore position stands
                          have habsorb := follows.absorb fit position stands
                          have hshorter := Plain.length_lt_of_next? claimed hplain
                          rw [Plain.complete_wildcard_of_some hplain,
                            Plain.complete_named_of_some hplain,
                            follows.search_wildcard fit hfound stands,
                            ih _ (hlength ▸ hshorter) hfollowing.tail hadvance rfl,
                            ih _ (hlength ▸ hshorter) separated habsorb rfl]
                          rfl

end EventChains.Matching
