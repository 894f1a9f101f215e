import EventChains.Matching.Sorted
import EventChains.Matching.Step

/-!
# Candidates

A candidate is a part of a chain: the positions taken so far, and a state that decides how it can
go on. It sees the events of its scopes, and the ends of the flows that it has entered and not
left; taking such an end brings the scope of the end into view.
-/

namespace EventChains.Matching

/-- Everything that decides how a candidate can go on. -/
structure State where
  /-- The step to complete next. -/
  step : Nat
  /-- The first position that has not been looked at. -/
  position : Nat
  /-- The kinds that the current wildcard has taken, where repeats are forbidden. -/
  run : SortedSet UInt32
  /-- The scopes in view. -/
  scopes : SortedSet Scope
  /-- The flows entered and not left. -/
  flows : SortedSet FlowKey
  deriving DecidableEq, Hashable, Inhabited, Repr

namespace State

variable (state : State)

/-- The state after the first event. -/
def start (position : Nat) (slot : Slot) : State where
  step := 1
  position := position + 1
  run := []
  scopes := [slot.event.scope]
  flows := []

/-- Whether an event is in view. -/
def sees (slot : Slot) : Bool :=
  state.scopes.has slot.event.scope ||
    slot.event.phase == .flowEnd && state.flows.has slot.event.flowKey

/-- The flows after an event has been taken. -/
def flowsAfter (slot : Slot) : SortedSet FlowKey :=
  match slot.event.phase with
  | .flowBegin => state.flows.insert slot.event.flowKey
  | .flowEnd => state.flows.erase slot.event.flowKey
  | _ => state.flows

/-- The scopes after an event has been taken. -/
def scopesAfter (slot : Slot) : SortedSet Scope :=
  match slot.event.phase with
  | .flowEnd => state.scopes.insert slot.event.scope
  | _ => state.scopes

/-- The state after the event at `position` has been taken. -/
def take (position : Nat) (slot : Slot) : State :=
  { state with
    position := position + 1
    scopes := state.scopesAfter slot
    flows := state.flowsAfter slot }

/-- The event completes the current step. -/
def advance (position : Nat) (slot : Slot) : State :=
  { state.take position slot with step := state.step + 1, run := [] }

/-- The current wildcard takes the event. -/
def absorb (rule : RepeatRule) (position : Nat) (slot : Slot) : State :=
  { state.take position slot with
    run := match rule with
      | .noRepeat => state.run.insert slot.kind
      | .unrestricted => state.run }

/-- The first event in view from `position` on. -/
def nextInView? (slots : Array Slot) (position : Nat) : Option (Nat × Slot) :=
  if h : position < slots.size then
    if state.sees slots[position] then some (position, slots[position])
    else nextInView? slots (position + 1)
  else none
termination_by slots.size - position

/-- The next event in view is not before `position`, and it is the slot at its position. -/
theorem nextInView?_spec {slots : Array Slot} {position found : Nat} {slot : Slot}
    (h : state.nextInView? slots position = some (found, slot)) :
    position ≤ found ∧ slots[found]? = some slot := by
  fun_induction nextInView? state slots position with
  | case1 position hlt _ =>
      cases h
      exact ⟨Nat.le_refl _, by simp [hlt]⟩
  | case2 position hlt _ ih =>
      obtain ⟨hle, hslot⟩ := ih h
      exact ⟨by omega, hslot⟩
  | case3 => contradiction

end State

/-- A part of a chain. -/
structure Candidate where
  state : State
  /-- The positions taken, the last one first. -/
  taken : List Nat
  deriving DecidableEq, Inhabited, Repr

namespace Candidate

/-- The candidate that has taken its first event. -/
def start (position : Nat) (slot : Slot) : Candidate :=
  ⟨.start position slot, [position]⟩

variable (candidate : Candidate)

/-- The event completes the current step. -/
def advance (position : Nat) (slot : Slot) : Candidate :=
  ⟨candidate.state.advance position slot, position :: candidate.taken⟩

/-- The current wildcard takes the event. -/
def absorb (rule : RepeatRule) (position : Nat) (slot : Slot) : Candidate :=
  ⟨candidate.state.absorb rule position slot, position :: candidate.taken⟩

/-- The positions taken, in order. -/
def path : List Nat :=
  candidate.taken.reverse

end Candidate

end EventChains.Matching
