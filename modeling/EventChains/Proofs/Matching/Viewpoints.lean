import EventChains.Proofs.Matching.Records
import Mathlib.Data.Finset.Prod
import Mathlib.Order.Interval.Finset.Nat

/-!
# How many states a hunt has

From where a candidate looks on and what it has in view depends on how many events it has taken, and
not on whether they have completed steps or been taken by a wildcard (`Trail.viewpoint?_eq`). So a
state is told by three numbers, its step, its position and the length of its run
(`Stacked.state_eq`), and a hunt has at most as many states as there are such numbers
(`length_le_of_stacked`).
-/

namespace EventChains.Matching

/-- A state without its step and its run: from where a candidate looks on, and what it has in
view. -/
def State.viewpoint (state : State) : State :=
  { state with step := 0, run := [] }

/-- The three numbers that tell a state of a hunt. -/
def State.key (state : State) : Nat × Nat × Nat :=
  (state.step, state.position, state.run.length)

theorem State.eq_of_viewpoint_eq {state other : State} (h : state.viewpoint = other.viewpoint)
    (hstep : state.step = other.step) (hrun : state.run = other.run) : state = other := by
  obtain ⟨step, position, run, scopes, flows⟩ := state
  obtain ⟨rfl, rfl⟩ : step = other.step ∧ run = other.run := ⟨hstep, hrun⟩
  have hposition : position = other.position := congrArg State.position h
  have hscopes : scopes = other.scopes := congrArg State.scopes h
  have hflows : flows = other.flows := congrArg State.flows h
  rw [hposition, hscopes, hflows]

/-- How many lengths the run of a wildcard can have among some events. Where repeats are allowed
nothing is recorded, and the run is empty. -/
def RepeatRule.runLengths : RepeatRule → Nat → Nat
  | noRepeat, events => events
  | unrestricted, _ => 1

namespace Hunt

variable (hunt : Hunt)

/-- The viewpoint of a candidate that has taken so many events after the first one. -/
def viewpoint? (first : State) : Nat → Option State
  | 0 => some first.viewpoint
  | taken + 1 =>
      (viewpoint? first taken).bind fun state =>
        (hunt.next? state).map fun next => state.take next.1 next.2

variable {hunt} {first candidate other : Candidate} {absorbed others : List Nat}

/-- The next event depends on the viewpoint. -/
theorem next?_viewpoint (hunt : Hunt) (state : State) :
    hunt.next? state.viewpoint = hunt.next? state :=
  next?_congr rfl rfl rfl

theorem viewpoint?_succ {start state : State} {taken position : Nat} {slot : Slot}
    (h : hunt.viewpoint? start taken = some state.viewpoint)
    (hnext : hunt.next? state = some (position, slot)) :
    hunt.viewpoint? start (taken + 1) = some (state.viewpoint.take position slot) := by
  rw [viewpoint?, h, Option.bind_some, next?_viewpoint, hnext, Option.map_some]

/-- Whoever has taken more events looks on from a later position. -/
theorem position_lt_of_viewpoint? {start earlier later : State} {few many : Nat}
    (hlt : few < many) (hfew : hunt.viewpoint? start few = some earlier)
    (hmany : hunt.viewpoint? start many = some later) : earlier.position < later.position := by
  induction many generalizing later with
  | zero => omega
  | succ many ih =>
      obtain ⟨state, hstate, hmap⟩ := Option.bind_eq_some_iff.1 hmany
      obtain ⟨⟨position, slot⟩, hnext, rfl⟩ := Option.map_eq_some_iff.1 hmap
      have hle : state.position ≤ position := (hunt.next?_bounds hnext).1
      have hearlier : earlier.position ≤ state.position := by
        rcases Nat.eq_or_lt_of_le (Nat.le_of_lt_succ hlt) with rfl | hlt
        · rw [Option.some.inj (hfew.symm.trans hstate)]
        · exact Nat.le_of_lt (ih hlt hstate)
      exact Nat.lt_succ_of_le (Nat.le_trans hearlier hle)

/-! ## Trails -/

/-- The viewpoint of a candidate is the one for the number of events that it has taken. -/
theorem Trail.viewpoint?_eq (trail : hunt.Trail first candidate absorbed) :
    ∃ taken, candidate.taken.length = first.taken.length + taken ∧
      hunt.viewpoint? first.state taken = some candidate.state.viewpoint := by
  induction trail with
  | start => exact ⟨0, rfl, rfl⟩
  | advance _ hnext _ _ ih =>
      obtain ⟨taken, hlength, hview⟩ := ih
      exact ⟨taken + 1, congrArg Nat.succ hlength, viewpoint?_succ hview hnext⟩
  | absorb _ hnext _ _ _ ih =>
      obtain ⟨taken, hlength, hview⟩ := ih
      exact ⟨taken + 1, congrArg Nat.succ hlength, viewpoint?_succ hview hnext⟩

/-- Candidates that have taken equally many events have the same viewpoint. -/
theorem Trail.viewpoint_eq (trail : hunt.Trail first candidate absorbed)
    (htrail : hunt.Trail first other others)
    (hlength : candidate.taken.length = other.taken.length) :
    candidate.state.viewpoint = other.state.viewpoint := by
  obtain ⟨taken, htaken, hview⟩ := trail.viewpoint?_eq
  obtain ⟨taken', htaken', hother⟩ := htrail.viewpoint?_eq
  obtain rfl : taken = taken' := by omega
  exact Option.some.inj (hview.symm.trans hother)

/-- Candidates at the same position have taken equally many events. -/
theorem Trail.length_eq (trail : hunt.Trail first candidate absorbed)
    (htrail : hunt.Trail first other others)
    (hposition : candidate.state.position = other.state.position) :
    candidate.taken.length = other.taken.length := by
  obtain ⟨taken, htaken, hview⟩ := trail.viewpoint?_eq
  obtain ⟨taken', htaken', hother⟩ := htrail.viewpoint?_eq
  rcases Nat.lt_trichotomy taken taken' with hlt | rfl | hlt
  · exact absurd (position_lt_of_viewpoint? hlt hview hother) (Nat.not_lt_of_le hposition.ge)
  · rw [htaken, htaken']
  · exact absurd (position_lt_of_viewpoint? hlt hother hview) (Nat.not_lt_of_le hposition.le)

/-- A wildcard that has taken nothing has an empty run. -/
theorem Trail.run_eq_nil (trail : hunt.Trail first candidate []) (hrun : first.state.run = []) :
    candidate.state.run = [] := by
  generalize hnil : [] = nothing at trail
  cases trail with
  | start => exact hrun
  | advance => rfl
  | absorb => exact absurd hnil (by simp)

/-- Where repeats are allowed, all runs are empty. -/
theorem Trail.run_eq_nil_of_unrestricted (trail : hunt.Trail first candidate absorbed)
    (hrun : first.state.run = []) (hrule : hunt.rule = .unrestricted) :
    candidate.state.run = [] := by
  induction trail with
  | start => exact hrun
  | advance => rfl
  | absorb _ _ _ _ _ ih =>
      rw [hrule]
      exact ih

/-- Where repeats are forbidden, a run is as long as what its wildcard has taken. -/
theorem Trail.length_run (trail : hunt.Trail first candidate absorbed)
    (hrun : first.state.run = []) (hrule : hunt.rule = .noRepeat) :
    candidate.state.run.length = absorbed.length := by
  induction trail with
  | start => simp [hrun]
  | advance => rfl
  | @absorb candidate absorbed position slot _ _ _ _ _ hrepeat ih =>
      rw [hrule, List.length_append, ← ih]
      exact SortedSet.length_insert hrepeat

/-- Wildcards that have taken equally many events up to the same one have the same run. -/
theorem Trail.run_eq (trail : hunt.Trail first candidate absorbed)
    (htrail : hunt.Trail first other others) (hrun : first.state.run = [])
    (hlength : candidate.taken.length = other.taken.length)
    (habsorbed : absorbed.length = others.length) :
    candidate.state.run = other.state.run := by
  induction trail generalizing other others with
  | start =>
      obtain rfl := List.length_eq_zero_iff.1 habsorbed.symm
      rw [hrun, htrail.run_eq_nil hrun]
  | advance =>
      obtain rfl := List.length_eq_zero_iff.1 habsorbed.symm
      exact (htrail.run_eq_nil hrun).symm
  | @absorb candidate absorbed position slot _ trail hnext _ _ _ ih =>
      cases htrail with
      | start | advance => simp at habsorbed
      | @absorb other others position' slot' _ htrail hnext' _ _ _ =>
          -- from the same viewpoint both have taken the same event
          have hbefore : candidate.taken.length = other.taken.length := Nat.succ.inj hlength
          have hsame := trail.viewpoint_eq htrail hbefore
          rw [← next?_viewpoint, hsame, next?_viewpoint] at hnext
          cases hnext.symm.trans hnext'
          have hruns := ih htrail hbefore (by simpa using habsorbed)
          cases hrule : hunt.rule with
          | noRepeat => exact congrArg (SortedSet.insert slot.kind) hruns
          | unrestricted => exact hruns

/-! ## States -/

/-- A state is told by its step, its position and the length of its run. -/
theorem Stacked.state_eq (stacked : hunt.Stacked first candidate)
    (hstacked : hunt.Stacked first other) (hrun : first.state.run = [])
    (hstep : candidate.state.step = other.state.step)
    (hposition : candidate.state.position = other.state.position)
    (hlength : candidate.state.run.length = other.state.run.length) :
    candidate.state = other.state := by
  obtain ⟨absorbed, trail⟩ := stacked.exists_trail
  obtain ⟨others, htrail⟩ := hstacked.exists_trail
  have htaken := trail.length_eq htrail hposition
  have hviewpoint := trail.viewpoint_eq htrail htaken
  have hruns : candidate.state.run = other.state.run := by
    cases hrule : hunt.rule with
    | noRepeat =>
        rw [trail.length_run hrun hrule, htrail.length_run hrun hrule] at hlength
        exact trail.run_eq htrail hrun htaken hlength
    | unrestricted =>
        rw [trail.run_eq_nil_of_unrestricted hrun hrule,
          htrail.run_eq_nil_of_unrestricted hrun hrule]
  exact State.eq_of_viewpoint_eq hviewpoint hstep hruns

/-- With every event that it takes a candidate looks on from a later position, so more events lie
behind it than its run holds. -/
theorem Stacked.run_lt_position {start : Nat} {slot : Slot}
    (stacked : hunt.Stacked (Candidate.start start slot) candidate) :
    start + candidate.state.run.length < candidate.state.position := by
  refine stacked.induction (P := fun candidate =>
    start + candidate.state.run.length < candidate.state.position) ?_ fun _ => Nat.lt_succ_self _
  intro candidate hlt next hnext _
  obtain ⟨position, slot, step, hfound, _, hnext⟩ := mem_successors_iff.1 hnext
  have hle := (hunt.next?_bounds hfound).1
  rcases hnext with ⟨_, rfl⟩ | ⟨⟨_, hrepeat⟩, rfl⟩
  · show start + 0 < position + 1
    omega
  · show start + (candidate.state.absorb hunt.rule position slot).run.length < position + 1
    unfold State.absorb
    cases hunt.rule with
    | noRepeat =>
        dsimp only
        rw [SortedSet.length_insert hrepeat]
        omega
    | unrestricted =>
        dsimp only
        omega

/-- The run of a candidate has one of the lengths that the rule allows among the events from the
start on. -/
theorem Stacked.length_run_lt {start : Nat} {slot : Slot} (hstart : start < hunt.slots.size)
    (stacked : hunt.Stacked (Candidate.start start slot) candidate)
    (hposition : candidate.state.position ≤ hunt.slots.size) :
    candidate.state.run.length < hunt.rule.runLengths (hunt.slots.size - start) := by
  cases hrule : hunt.rule with
  | noRepeat =>
      have := stacked.run_lt_position
      show _ < hunt.slots.size - start
      omega
  | unrestricted =>
      obtain ⟨absorbed, trail⟩ := stacked.exists_trail
      rw [trail.run_eq_nil_of_unrestricted rfl hrule]
      exact Nat.one_pos

/-- Different states of one hunt are no more than there are steps to complete, times positions to
look on from, times lengths of a run. -/
theorem length_le_of_stacked {start : Nat} {slot : Slot} {states : List State}
    (hslot : hunt.slots[start]? = some slot) (hsteps : 0 < hunt.steps.size) (nodup : states.Nodup)
    (hstacked : ∀ state ∈ states, ∃ candidate,
      hunt.Stacked (Candidate.start start slot) candidate ∧ candidate.state = state) :
    states.length ≤ (hunt.steps.size - 1) * (hunt.slots.size - start) *
      hunt.rule.runLengths (hunt.slots.size - start) := by
  have hstart := (Array.getElem?_eq_some_iff.1 hslot).1
  have hinjective : ∀ state ∈ states, ∀ other ∈ states, state.key = other.key →
      state = other := by
    intro state hstate other hother hkey
    obtain ⟨candidate, stacked, rfl⟩ := hstacked state hstate
    obtain ⟨another, hanother, rfl⟩ := hstacked other hother
    obtain ⟨hstep, hposition, hlength⟩ := by simpa [State.key] using hkey
    exact stacked.state_eq hanother rfl hstep hposition hlength
  let keys := Finset.Ico 1 hunt.steps.size ×ˢ Finset.Ioc start hunt.slots.size ×ˢ
    Finset.range (hunt.rule.runLengths (hunt.slots.size - start))
  have hkeys : (states.map State.key).toFinset ⊆ keys := by
    intro numbers hnumbers
    obtain ⟨state, hstate, rfl⟩ := List.mem_map.1 (List.mem_toFinset.1 hnumbers)
    obtain ⟨candidate, stacked, rfl⟩ := hstacked state hstate
    obtain ⟨hone, hstep, hposition⟩ := inBounds_of_stacked hslot hsteps stacked
    have hlater := stacked.run_lt_position
    have hlength := stacked.length_run_lt hstart hposition
    simp only [keys, State.key, Finset.mem_product, Finset.mem_Ico, Finset.mem_Ioc,
      Finset.mem_range]
    exact ⟨⟨hone, hstep⟩, ⟨by omega, hposition⟩, hlength⟩
  calc states.length = (states.map State.key).toFinset.card := by
        rw [List.toFinset_card_of_nodup (nodup.map_on hinjective), List.length_map]
    _ ≤ keys.card := Finset.card_le_card hkeys
    _ = (hunt.steps.size - 1) * (hunt.slots.size - start) *
          hunt.rule.runLengths (hunt.slots.size - start) := by
        rw [Finset.card_product, Finset.card_product, Nat.card_Ico, Nat.card_Ioc,
          Finset.card_range, Nat.mul_assoc]

end Hunt

end EventChains.Matching
