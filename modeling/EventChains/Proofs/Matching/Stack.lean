import EventChains.Proofs.Matching.Hunt

/-!
# The stack of a hunt

A hunt goes from frontier to frontier (`Reaches`) without a change to what it finds in the end
(`Reaches.fromStart_eq`), and each turn puts some candidates in place of the topmost one (`pushed`).
What holds for the first candidate and is preserved by every step of the hunt holds for every
candidate that is ever on the stack (`Stacked.induction`). So each of them has a `Trail`, which
tells what the current wildcard has taken.
-/

namespace EventChains.Matching.Hunt

variable (hunt : Hunt)

/-- The frontiers that a hunt comes to from its first candidate. A hunt that is complete with the
first candidate has none. -/
inductive Reaches (first : Candidate) : Frontier → Prop where
  | start (h : ¬ hunt.isComplete first = true) : Reaches first ⟨[first], ∅⟩
  | turn {frontier later : Frontier} (reaches : Reaches first frontier)
      (hturn : hunt.turn frontier = .next later) : Reaches first later

/-- The candidates that a turn puts on the stack: nothing in place of a topmost candidate whose
state is known, and otherwise its successors. A complete successor ends the hunt and is not put
there. -/
def pushed (frontier : Frontier) : List Candidate :=
  match frontier.stack with
  | [] => []
  | candidate :: _ =>
      if candidate.state ∈ hunt.failed ∨ candidate.state ∈ frontier.explored then []
      else (hunt.successors candidate).filter fun next => !hunt.isComplete next

/-- A candidate is on the stack at some time: a turn finds it there or puts it there. -/
def Stacked (first candidate : Candidate) : Prop :=
  ∃ frontier, hunt.Reaches first frontier ∧
    (candidate ∈ frontier.stack ∨ candidate ∈ hunt.pushed frontier)

/-- How a candidate has come about from the first one, and the positions that its wildcard has taken
since a step was last completed. -/
inductive Trail (first : Candidate) : Candidate → List Nat → Prop where
  | start : Trail first first []
  | advance {candidate : Candidate} {absorbed : List Nat} {position : Nat} {slot : Slot}
      {step : Step} (trail : Trail first candidate absorbed)
      (hnext : hunt.next? candidate.state = some (position, slot))
      (hstep : hunt.steps[candidate.state.step]? = some step) (hkind : slot.kind = step.kind) :
      Trail first (candidate.advance position slot) []
  | absorb {candidate : Candidate} {absorbed : List Nat} {position : Nat} {slot : Slot}
      {step : Step} (trail : Trail first candidate absorbed)
      (hnext : hunt.next? candidate.state = some (position, slot))
      (hstep : hunt.steps[candidate.state.step]? = some step) (hawaited : step.isAwaited = true)
      (hrepeat : ¬ candidate.state.run.has slot.kind = true) :
      Trail first (candidate.absorb hunt.rule position slot) (absorbed ++ [position])

variable {hunt} {first candidate next : Candidate} {frontier later : Frontier}
  {rest : List Candidate} {explored : Std.HashSet State} {P : Candidate → Prop}

/-- A hunt ends as the run does from any frontier that it comes to. -/
theorem Reaches.fromStart_eq {position : Nat} {slot : Slot}
    (reaches : hunt.Reaches (Candidate.start position slot) frontier) :
    hunt.fromStart position slot = hunt.run frontier := by
  induction reaches with
  | start hincomplete => exact if_neg hincomplete
  | @turn frontier later _ hturn ih =>
      rw [ih, run]
      split <;> simp_all

theorem pushed_of_known (h : candidate.state ∈ hunt.failed ∨ candidate.state ∈ explored) :
    hunt.pushed ⟨candidate :: rest, explored⟩ = [] :=
  if_pos h

theorem pushed_of_not_known (h : ¬ (candidate.state ∈ hunt.failed ∨ candidate.state ∈ explored)) :
    hunt.pushed ⟨candidate :: rest, explored⟩ =
      (hunt.successors candidate).filter fun next => !hunt.isComplete next :=
  if_neg h

/-- The incomplete successors of the first candidate come onto the stack, unless its state is known
to fail. -/
theorem stacked_of_mem_successors (hfirst : ¬ hunt.isComplete first = true)
    (hknown : first.state ∉ hunt.failed) (hnext : next ∈ hunt.successors first)
    (hincomplete : ¬ hunt.isComplete next = true) : hunt.Stacked first next := by
  refine ⟨⟨[first], ∅⟩, .start hfirst, .inr ?_⟩
  rw [pushed_of_not_known (by simpa using hknown), List.mem_filter]
  exact ⟨hnext, by simpa using hincomplete⟩

/-- What is put on the stack are incomplete successors of the topmost candidate. -/
theorem mem_successors_of_mem_pushed (h : next ∈ hunt.pushed frontier) :
    ∃ candidate, frontier.stack.head? = some candidate ∧
      next ∈ hunt.successors candidate ∧ ¬ hunt.isComplete next = true := by
  obtain ⟨stack, explored⟩ := frontier
  cases stack with
  | nil => contradiction
  | cons candidate rest =>
      refine ⟨candidate, rfl, ?_⟩
      by_cases hknown : candidate.state ∈ hunt.failed ∨ candidate.state ∈ explored
      · rw [pushed_of_known hknown] at h
        contradiction
      · rw [pushed_of_not_known hknown] at h
        simpa using h

/-- After a turn the stack has what the turn has put in place of the topmost candidate. -/
theorem stack_of_turn (h : hunt.turn frontier = .next later) :
    later.stack = hunt.pushed frontier ++ frontier.stack.tail := by
  obtain ⟨stack, explored⟩ := frontier
  cases stack with
  | nil => contradiction
  | cons candidate rest =>
      by_cases hknown : candidate.state ∈ hunt.failed ∨ candidate.state ∈ explored
      · rw [turn_of_known hknown] at h
        cases h
        rw [pushed_of_known hknown]
        rfl
      · rw [turn_of_not_known hknown] at h
        rw [pushed_of_not_known hknown]
        cases hfind : (hunt.successors candidate).find? hunt.isComplete with
        | some complete =>
            rw [hfind] at h
            contradiction
        | none =>
            rw [hfind] at h
            cases h
            have hincomplete : ∀ next ∈ hunt.successors candidate,
                (!hunt.isComplete next) = true := by
              simpa using List.find?_eq_none.1 hfind
            rw [List.filter_eq_self.2 hincomplete]
            rfl

section Induction

variable (hstep : ∀ candidate, P candidate → ∀ next ∈ hunt.successors candidate,
  ¬ hunt.isComplete next = true → P next)

include hstep

/-- What every step to an incomplete candidate preserves holds for all that a turn puts on the stack
if it holds for the stack before. -/
theorem forall_pushed (hstack : ∀ candidate ∈ frontier.stack, P candidate) :
    ∀ next ∈ hunt.pushed frontier, P next := by
  intro next hnext
  obtain ⟨candidate, hhead, hnext, hincomplete⟩ := mem_successors_of_mem_pushed hnext
  exact hstep candidate (hstack candidate (List.mem_of_mem_head? hhead)) next hnext hincomplete

/-- It holds for the stack of every frontier if it holds for the first candidate. -/
theorem Reaches.forall_stack (hfirst : ¬ hunt.isComplete first = true → P first)
    (reaches : hunt.Reaches first frontier) : ∀ candidate ∈ frontier.stack, P candidate := by
  induction reaches with
  | start hincomplete => simpa using hfirst hincomplete
  | turn _ hturn ih =>
      rw [stack_of_turn hturn]
      intro candidate hcandidate
      rcases List.mem_append.1 hcandidate with hcandidate | hcandidate
      · exact forall_pushed hstep ih candidate hcandidate
      · exact ih candidate (List.mem_of_mem_tail hcandidate)

/-- So it holds for every candidate that is ever on the stack. -/
theorem Stacked.induction (hfirst : ¬ hunt.isComplete first = true → P first)
    (stacked : hunt.Stacked first candidate) : P candidate := by
  obtain ⟨frontier, reaches, hmem | hmem⟩ := stacked
  · exact reaches.forall_stack hstep hfirst candidate hmem
  · exact forall_pushed hstep (reaches.forall_stack hstep hfirst) candidate hmem

end Induction

/-- Every candidate that is ever on the stack has come about from the first one. -/
theorem Stacked.exists_trail (stacked : hunt.Stacked first candidate) :
    ∃ absorbed, hunt.Trail first candidate absorbed := by
  refine stacked.induction (P := fun candidate => ∃ absorbed, hunt.Trail first candidate absorbed)
    ?_ fun _ => ⟨[], .start⟩
  rintro candidate ⟨absorbed, trail⟩ next hnext _
  obtain ⟨position, slot, step, hfound, hstep, hnext⟩ := mem_successors_iff.1 hnext
  rcases hnext with ⟨hkind, rfl⟩ | ⟨⟨hawaited, hrepeat⟩, rfl⟩
  · exact ⟨[], trail.advance hfound hstep hkind⟩
  · exact ⟨absorbed ++ [position], trail.absorb hfound hstep hawaited hrepeat⟩

end EventChains.Matching.Hunt
