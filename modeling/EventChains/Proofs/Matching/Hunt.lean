import EventChains.Matching.Hunt
import Mathlib.Data.List.Basic

/-!
# Candidates of a hunt

`mem_successors_iff` says all that one step of a hunt can do: the next event completes the current
step, or the current wildcard takes it. What every step preserves holds for all candidates of a hunt
and so for the chain that it finds (`fromStart_induction`), whatever events are claimed and whatever
states are known to fail.
-/

namespace EventChains.Matching.Hunt

variable {hunt : Hunt} {candidate next : Candidate} {rest : List Candidate}
  {explored : Std.HashSet State}

/-- What the next event is depends on the position and on what is in view. -/
theorem next?_congr {state other : State} (hposition : state.position = other.position)
    (hscopes : state.scopes = other.scopes) (hflows : state.flows = other.flows) :
    hunt.next? state = hunt.next? other := by
  have hsees (slot : Slot) : state.sees slot = other.sees slot := by
    rw [State.sees, State.sees, hscopes, hflows]
  have hview (position : Nat) :
      state.nextInView? hunt.slots position = other.nextInView? hunt.slots position := by
    fun_induction State.nextInView? other hunt.slots position with
    | case1 position hlt hother =>
        rw [State.nextInView?, dif_pos hlt, hsees, if_pos hother]
    | case2 position hlt hother ih =>
        rw [State.nextInView?, dif_pos hlt, hsees, if_neg hother, ih]
    | case3 position hge => rw [State.nextInView?, dif_neg hge]
  rw [next?, next?, hposition, hview]

/-- A successor has taken the next event: the event completes the current step, or the current
wildcard takes it. -/
theorem mem_successors_iff :
    next ∈ hunt.successors candidate ↔
      ∃ position slot step, hunt.next? candidate.state = some (position, slot) ∧
        hunt.steps[candidate.state.step]? = some step ∧
        ((slot.kind = step.kind ∧ next = candidate.advance position slot) ∨
          ((step.isAwaited = true ∧ ¬ candidate.state.run.has slot.kind = true) ∧
            next = candidate.absorb hunt.rule position slot)) := by
  unfold successors
  split
  · rename_i position slot step hnext hstep
    have hadvance : next ∈ (advance? step candidate position slot).toList ↔
        slot.kind = step.kind ∧ next = candidate.advance position slot := by
      unfold advance?
      split <;> simp_all
    have habsorb : next ∈ (hunt.absorb? step candidate position slot).toList ↔
        (step.isAwaited = true ∧ ¬ candidate.state.run.has slot.kind = true) ∧
          next = candidate.absorb hunt.rule position slot := by
      unfold absorb?
      split <;> simp_all
    rw [List.mem_append, hadvance, habsorb, hnext, hstep]
    constructor
    · intro h
      exact ⟨position, slot, step, rfl, rfl, h⟩
    · rintro ⟨_, _, _, hnext, hstep, h⟩
      cases hnext
      cases hstep
      exact h
  · rename_i hnone
    constructor
    · intro h
      contradiction
    · rintro ⟨position, slot, step, hnext, hstep, _⟩
      exact absurd hstep (hnone position slot step hnext)

/-- A successor has looked at more events than its candidate. -/
theorem position_of_mem_successors (h : next ∈ hunt.successors candidate) :
    candidate.state.position < next.state.position ∧ next.state.position ≤ hunt.slots.size := by
  obtain ⟨position, slot, step, hnext, _, h⟩ := mem_successors_iff.1 h
  obtain ⟨hle, hlt⟩ := hunt.next?_bounds hnext
  have hposition : next.state.position = position + 1 := by
    rcases h with ⟨_, rfl⟩ | ⟨_, rfl⟩ <;> rfl
  omega

/-- The topmost candidate is skipped when its state is known. -/
theorem turn_of_known (h : candidate.state ∈ hunt.failed ∨ candidate.state ∈ explored) :
    hunt.turn ⟨candidate :: rest, explored⟩ = .next ⟨rest, explored⟩ := by
  rw [Std.HashSet.mem_iff_contains, Std.HashSet.mem_iff_contains, ← Bool.or_eq_true] at h
  exact if_pos h

/-- Otherwise its successors take its place, unless one of them is complete. -/
theorem turn_of_not_known (h : ¬ (candidate.state ∈ hunt.failed ∨ candidate.state ∈ explored)) :
    hunt.turn ⟨candidate :: rest, explored⟩ =
      match (hunt.successors candidate).find? hunt.isComplete with
      | some complete => .found complete.path
      | none => .next ⟨hunt.successors candidate ++ rest, explored.insert candidate.state⟩ := by
  rw [Std.HashSet.mem_iff_contains, Std.HashSet.mem_iff_contains, ← Bool.or_eq_true] at h
  exact if_neg h

section Induction

variable (hunt) in
/-- Every step of a hunt preserves a property of candidates. -/
def Preserves (P : Candidate → Prop) : Prop :=
  ∀ candidate, P candidate → ∀ next ∈ hunt.successors candidate, P next

variable {P : Candidate → Prop}

/-- What every step preserves, a turn preserves for all candidates on the stack. -/
theorem turn_induction (hstep : hunt.Preserves P) {frontier : Frontier}
    (hstack : ∀ candidate ∈ frontier.stack, P candidate) :
    match hunt.turn frontier with
    | .found path => ∃ candidate, P candidate ∧ candidate.path = path
    | .exhausted _ => True
    | .next later => ∀ candidate ∈ later.stack, P candidate := by
  obtain ⟨stack, explored⟩ := frontier
  cases stack with
  | nil => exact trivial
  | cons candidate rest =>
      obtain ⟨hcandidate, hrest⟩ := List.forall_mem_cons.1 hstack
      by_cases hknown : candidate.state ∈ hunt.failed ∨ candidate.state ∈ explored
      · rw [turn_of_known hknown]
        exact hrest
      · rw [turn_of_not_known hknown]
        cases hfind : (hunt.successors candidate).find? hunt.isComplete with
        | some complete =>
            have hmem := List.mem_of_find?_eq_some hfind
            exact ⟨complete, hstep candidate hcandidate complete hmem, rfl⟩
        | none =>
            intro next hnext
            rcases List.mem_append.1 hnext with hnext | hnext
            · exact hstep candidate hcandidate next hnext
            · exact hrest next hnext

/-- What every step preserves holds for the chain that a run finds. -/
theorem run_induction (hstep : hunt.Preserves P) {frontier : Frontier}
    (hstack : ∀ candidate ∈ frontier.stack, P candidate) {path : List Nat}
    (h : hunt.run frontier = .found path) : ∃ candidate, P candidate ∧ candidate.path = path := by
  fun_induction hunt.run frontier with
  | case1 frontier found hturn =>
      have hfound := turn_induction hstep hstack
      rw [hturn] at hfound
      cases h
      exact hfound
  | case2 => contradiction
  | case3 frontier later hturn ih =>
      have hlater := turn_induction hstep hstack
      rw [hturn] at hlater
      exact ih hlater h

/-- What holds for the first candidate and is preserved by every step holds for the chain that a
hunt finds. -/
theorem fromStart_induction (hstep : hunt.Preserves P) {position : Nat} {slot : Slot}
    (hstart : P (Candidate.start position slot)) {path : List Nat}
    (h : hunt.fromStart position slot = .found path) :
    ∃ candidate, P candidate ∧ candidate.path = path := by
  unfold fromStart at h
  dsimp only at h
  split at h
  · cases h
    exact ⟨_, hstart, rfl⟩
  · exact run_induction hstep (List.forall_mem_singleton.2 hstart) h

end Induction

end EventChains.Matching.Hunt
