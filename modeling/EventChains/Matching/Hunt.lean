import EventChains.Matching.Candidate
import Std.Data.HashSet

/-!
# The hunt for one chain

From its first event on, a chain is looked for depth first. Where the next event in view could
either complete the current step or be taken by a wildcard, completing the step is tried first. A
state that has been explored once is not explored again, and neither is one that is known to fail.

`Hunt.turn` handles the topmost candidate of the stack, and `Hunt.run` repeats it. A turn puts at
most two candidates in place of one, each with a later position; `weight_lt_of_turn` says that this
makes the stack lighter, so the hunt ends.
-/

namespace EventChains.Matching

/-- What a hunt works with and does not change. -/
structure Hunt where
  slots : Array Slot
  steps : Array Step
  rule : RepeatRule
  /-- The positions of events in earlier chains. -/
  claimed : Std.HashSet Nat
  /-- States that are known to fail. -/
  failed : Std.HashSet State

/-- How far a hunt has come. -/
structure Frontier where
  /-- The candidates still to be tried, the next one first. -/
  stack : List Candidate
  explored : Std.HashSet State

/-- The outcome of a turn. -/
inductive Turn where
  | found (path : List Nat)
  | exhausted (explored : Std.HashSet State)
  | next (frontier : Frontier)

/-- The outcome of a hunt: the positions of a chain, or the states that were explored in vain. -/
inductive Outcome where
  | found (path : List Nat)
  | exhausted (explored : Std.HashSet State)

namespace Hunt

variable (hunt : Hunt)

/-- The next event in view, unless it belongs to another chain. -/
def next? (state : State) : Option (Nat × Slot) :=
  (state.nextInView? hunt.slots state.position).filter fun found => !hunt.claimed.contains found.1

/-- The candidate after its current step is completed by the event. -/
def advance? (step : Step) (candidate : Candidate) (position : Nat) (slot : Slot) :
    Option Candidate :=
  if slot.kind = step.kind then some (candidate.advance position slot) else none

/-- The candidate after its current wildcard has taken the event. -/
def absorb? (step : Step) (candidate : Candidate) (position : Nat) (slot : Slot) :
    Option Candidate :=
  if step.isAwaited && !candidate.state.run.has slot.kind then
    some (candidate.absorb hunt.rule position slot)
  else none

/-- The candidates that follow, the preferred one first. -/
def successors (candidate : Candidate) : List Candidate :=
  match hunt.next? candidate.state, hunt.steps[candidate.state.step]? with
  | some (position, slot), some step =>
      (advance? step candidate position slot).toList ++
        (hunt.absorb? step candidate position slot).toList
  | _, _ => []

/-- Whether a candidate has completed all steps. -/
def isComplete (candidate : Candidate) : Bool :=
  candidate.state.step == hunt.steps.size

/-- Handles the topmost candidate. -/
def turn (frontier : Frontier) : Turn :=
  match frontier.stack with
  | [] => .exhausted frontier.explored
  | candidate :: rest =>
      if hunt.failed.contains candidate.state || frontier.explored.contains candidate.state then
        .next ⟨rest, frontier.explored⟩
      else
        let explored := frontier.explored.insert candidate.state
        let successors := hunt.successors candidate
        match successors.find? hunt.isComplete with
        | some complete => .found complete.path
        | none => .next ⟨successors ++ rest, explored⟩

/-- How much work a candidate can still cause: threefold for each position it has not looked at. -/
def candidateWeight (candidate : Candidate) : Nat :=
  Nat.pow 3 (hunt.slots.size + 1 - candidate.state.position)

/-- How much work a stack can still cause. -/
def weight (stack : List Candidate) : Nat :=
  stack.foldr (fun candidate rest => hunt.candidateWeight candidate + rest) 0

theorem weight_cons (candidate : Candidate) (rest : List Candidate) :
    hunt.weight (candidate :: rest) = hunt.candidateWeight candidate + hunt.weight rest :=
  rfl

theorem weight_append (first second : List Candidate) :
    hunt.weight (first ++ second) = hunt.weight first + hunt.weight second := by
  induction first with
  | nil => exact (Nat.zero_add _).symm
  | cons candidate rest ih => rw [List.cons_append, weight_cons, weight_cons, ih, Nat.add_assoc]

theorem candidateWeight_pos (candidate : Candidate) : 0 < hunt.candidateWeight candidate :=
  Nat.pow_pos (Nat.succ_pos 2)

/-- A candidate outweighs a later one threefold. -/
theorem candidateWeight_of_lt {earlier later : Candidate}
    (hlt : earlier.state.position < later.state.position)
    (hle : later.state.position ≤ hunt.slots.size) :
    3 * hunt.candidateWeight later ≤ hunt.candidateWeight earlier := by
  have hgap : hunt.slots.size + 1 - later.state.position + 1 ≤
      hunt.slots.size + 1 - earlier.state.position := by omega
  show 3 * Nat.pow 3 (hunt.slots.size + 1 - later.state.position) ≤
    Nat.pow 3 (hunt.slots.size + 1 - earlier.state.position)
  rw [Nat.mul_comm]
  exact Nat.pow_le_pow_right (Nat.succ_pos 2) hgap

/-- The next event lies at or after the position of the state, and in the trace. -/
theorem next?_bounds {state : State} {position : Nat} {slot : Slot}
    (h : hunt.next? state = some (position, slot)) :
    state.position ≤ position ∧ position < hunt.slots.size := by
  simp only [next?, Option.filter_eq_some_iff] at h
  obtain ⟨hle, hslot⟩ := state.nextInView?_spec h.1
  exact ⟨hle, (Array.getElem?_eq_some_iff.1 hslot).1⟩

/-- A candidate outweighs its successors together. -/
theorem weight_successors_lt (candidate : Candidate) :
    hunt.weight (hunt.successors candidate) < hunt.candidateWeight candidate := by
  have hpos := hunt.candidateWeight_pos candidate
  unfold successors
  split
  · rename_i position slot step hnext _
    obtain ⟨hle, hlt⟩ := hunt.next?_bounds hnext
    have hadvance : 3 * hunt.weight (advance? step candidate position slot).toList ≤
        hunt.candidateWeight candidate := by
      unfold advance?
      split
      · exact hunt.candidateWeight_of_lt (Nat.lt_succ_of_le hle) hlt
      · exact Nat.zero_le _
    have habsorb : 3 * hunt.weight (hunt.absorb? step candidate position slot).toList ≤
        hunt.candidateWeight candidate := by
      unfold absorb?
      split
      · exact hunt.candidateWeight_of_lt (Nat.lt_succ_of_le hle) hlt
      · exact Nat.zero_le _
    rw [weight_append]
    omega
  · exact hpos

/-- Every turn that does not end the hunt makes the stack lighter. -/
theorem weight_lt_of_turn {frontier later : Frontier} (h : hunt.turn frontier = .next later) :
    hunt.weight later.stack < hunt.weight frontier.stack := by
  unfold turn at h
  split at h
  · contradiction
  · rename_i candidate rest hstack
    have hpos := hunt.candidateWeight_pos candidate
    rw [hstack, weight_cons]
    split at h
    · cases h
      dsimp only
      omega
    · dsimp only at h
      split at h
      · contradiction
      · cases h
        have := hunt.weight_successors_lt candidate
        rw [weight_append]
        omega

/-- Takes turns until the hunt ends. -/
def run (frontier : Frontier) : Outcome :=
  match _h : hunt.turn frontier with
  | .found path => .found path
  | .exhausted explored => .exhausted explored
  | .next later => run later
termination_by hunt.weight frontier.stack
decreasing_by exact hunt.weight_lt_of_turn _h

/-- Looks for a chain whose first event is the slot at `position`. A pattern of one step has found
its chain with the first event. -/
def fromStart (position : Nat) (slot : Slot) : Outcome :=
  let first := Candidate.start position slot
  if hunt.isComplete first then .found first.path else hunt.run ⟨[first], ∅⟩

end Hunt

end EventChains.Matching
