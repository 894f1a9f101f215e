import EventChains.Proofs.Matching.Hunt

/-!
# What a hunt remembers

A hunt skips the states that it has explored and those that are known to fail. `Hunt.search` looks
for a chain in the same order and remembers nothing. `fromStart_spec` says that the two find
the same chain as long as the states that are known to fail do fail, and that after a hunt in vain
all explored states fail as well. A state that fails keeps failing when more events are claimed
(`Fails.of_narrows`), so the memory of one hunt may be handed to the next.
-/

namespace EventChains.Matching.Hunt

variable (hunt : Hunt)

/-- Looks for a chain from a candidate on, and remembers nothing. -/
def search (candidate : Candidate) : Option (List Nat) :=
  if hunt.isComplete candidate then some candidate.path
  else (hunt.successors candidate).attach.findSome? fun next => search next.1
termination_by hunt.slots.size + 1 - candidate.state.position
decreasing_by
  have := position_of_mem_successors next.2
  omega

theorem search_of_isComplete {candidate : Candidate} (h : hunt.isComplete candidate = true) :
    hunt.search candidate = some candidate.path := by
  rw [search, if_pos h]

theorem search_of_not_isComplete {candidate : Candidate} (h : ¬ hunt.isComplete candidate = true) :
    hunt.search candidate = (hunt.successors candidate).findSome? hunt.search := by
  rw [search, if_neg h]
  simp

/-- What follows a candidate depends on its state; the positions taken are only carried along. -/
theorem successors_eq_map (state : State) (taken : List Nat) :
    hunt.successors ⟨state, taken⟩ =
      (hunt.successors ⟨state, []⟩).map fun next => ⟨next.state, next.taken ++ taken⟩ := by
  unfold successors
  dsimp only
  split
  · unfold advance? absorb?
    dsimp only
    split <;> split <;> rfl
  · rfl

/-- A search from a state on finds the same positions whatever has been taken before. -/
theorem search_eq_map (candidate : Candidate) :
    hunt.search candidate =
      (hunt.search ⟨candidate.state, []⟩).map (candidate.taken.reverse ++ ·) := by
  induction hmeasure : hunt.slots.size + 1 - candidate.state.position using Nat.strongRecOn
    generalizing candidate with
  | ind measure ih =>
      obtain ⟨state, taken⟩ := candidate
      by_cases hcomplete : hunt.isComplete ⟨state, taken⟩ = true
      · have hempty : hunt.isComplete ⟨state, []⟩ = true := hcomplete
        rw [hunt.search_of_isComplete hcomplete, hunt.search_of_isComplete hempty]
        simp [Candidate.path]
      · have hempty : ¬ hunt.isComplete ⟨state, []⟩ = true := hcomplete
        rw [hunt.search_of_not_isComplete hcomplete, hunt.search_of_not_isComplete hempty,
          successors_eq_map, List.findSome?_map, List.map_findSome?,
          ← List.head?_filterMap, ← List.head?_filterMap]
        refine congrArg List.head? (List.filterMap_congr fun next hnext => ?_)
        have hlater := position_of_mem_successors hnext
        have hmap := fun taken => ih _ (by dsimp only at hmeasure hlater ⊢; omega)
          ⟨next.state, taken⟩ rfl
        rw [Function.comp_apply, Function.comp_apply, hmap, hmap next.taken]
        simp [Function.comp_def]

/-- Without a next event an incomplete state leads nowhere. -/
theorem search_of_next?_eq_none {state : State} (hincomplete : state.step ≠ hunt.steps.size)
    (hnext : hunt.next? state = none) : hunt.search ⟨state, []⟩ = none := by
  rw [search_of_not_isComplete hunt (by simpa [isComplete] using hincomplete), successors]
  dsimp only
  rw [hnext]
  rfl

/-- The next event completes the current step, or else the current wildcard takes it. -/
theorem search_of_next?_eq_some {state : State} {position : Nat} {slot : Slot} {step : Step}
    (hnext : hunt.next? state = some (position, slot))
    (hstep : hunt.steps[state.step]? = some step) :
    hunt.search ⟨state, []⟩ =
      Option.map (position :: ·) (Option.or
        (if slot.kind = step.kind then hunt.search ⟨state.advance position slot, []⟩ else none)
        (if step.isAwaited = true ∧ ¬ state.run.has slot.kind = true then
          hunt.search ⟨state.absorb hunt.rule position slot, []⟩ else none)) := by
  have hincomplete : ¬ hunt.isComplete ⟨state, []⟩ = true := by
    have := (Array.getElem?_eq_some_iff.1 hstep).1
    simp only [isComplete, beq_iff_eq]
    omega
  have hadvance := hunt.search_eq_map ⟨state.advance position slot, [position]⟩
  have habsorb := hunt.search_eq_map ⟨state.absorb hunt.rule position slot, [position]⟩
  rw [search_of_not_isComplete hunt hincomplete, successors]
  dsimp only at hadvance habsorb ⊢
  rw [hnext, hstep]
  dsimp only
  rw [List.findSome?_append, Option.map_or]
  congr 1
  · unfold advance?
    split
    · simpa [Candidate.advance] using hadvance
    · rfl
  · unfold absorb?
    dsimp only
    split
    · rename_i h
      rw [if_pos (by simpa using h)]
      simpa [Candidate.absorb] using habsorb
    · rename_i h
      rw [if_neg (by simpa using h)]
      rfl

/-- No chain can be completed from a state. -/
def Fails (state : State) : Prop :=
  hunt.search ⟨state, []⟩ = none

theorem search_eq_none_iff (candidate : Candidate) :
    hunt.search candidate = none ↔ hunt.Fails candidate.state := by
  rw [search_eq_map, Option.map_eq_none_iff, Fails]

/-! ## The stack -/

/-- A state fails if all the candidates do for which it waits; they have looked at more events. -/
structure Waits (state : State) (pending : List Candidate) : Prop where
  later : ∀ candidate ∈ pending, state.position < candidate.state.position
  fails : (∀ candidate ∈ pending, hunt.Fails candidate.state) → hunt.Fails state

/-- Each explored state waits for the candidates of a leading part of the stack. -/
structure Sound (frontier : Frontier) : Prop where
  incomplete : ∀ candidate ∈ frontier.stack, ¬ hunt.isComplete candidate = true
  waits : ∀ state ∈ frontier.explored, ∃ pending rest,
    frontier.stack = pending ++ rest ∧ hunt.Waits state pending

variable {hunt}

/-- A state waits no longer for a candidate that fails, and instead of a candidate for some that
it waits for. -/
theorem Waits.replace {state : State} {candidate : Candidate} {pending successors : List Candidate}
    (waits : hunt.Waits state (candidate :: pending))
    (hsuccessors : hunt.Waits candidate.state successors) :
    hunt.Waits state (successors ++ pending) where
  later next hnext := by
    rcases List.mem_append.1 hnext with hnext | hnext
    · exact Nat.lt_trans (waits.later candidate List.mem_cons_self) (hsuccessors.later next hnext)
    · exact waits.later next (List.mem_cons_of_mem _ hnext)
  fails hfails := by
    refine waits.fails (List.forall_mem_cons.2 ⟨hsuccessors.fails fun next hnext => ?_, ?_⟩)
    · exact hfails next (List.mem_append_left _ hnext)
    · exact fun next hnext => hfails next (List.mem_append_right _ hnext)

/-- A state waits for no candidates if it fails. -/
theorem Fails.waits {state : State} (h : hunt.Fails state) : hunt.Waits state [] :=
  ⟨by simp, fun _ => h⟩

/-- An incomplete candidate waits for its successors. -/
theorem waits_successors {candidate : Candidate} (h : ¬ hunt.isComplete candidate = true) :
    hunt.Waits candidate.state (hunt.successors candidate) where
  later next hnext := (position_of_mem_successors hnext).1
  fails hfails := by
    rw [← search_eq_none_iff, hunt.search_of_not_isComplete h, List.findSome?_eq_none_iff]
    exact fun next hnext => (hunt.search_eq_none_iff next).2 (hfails next hnext)

/-- An explored state that comes up again fails: what it waits for lies behind it. -/
theorem Sound.fails_of_explored {candidate : Candidate} {rest : List Candidate}
    {explored : Std.HashSet State} (sound : hunt.Sound ⟨candidate :: rest, explored⟩)
    (h : candidate.state ∈ explored) : hunt.Fails candidate.state := by
  obtain ⟨pending, tail, hstack, waits⟩ := sound.waits _ h
  cases pending with
  | nil => exact waits.fails (by simp)
  | cons first _ =>
      -- the candidate would have to lie behind itself
      cases hstack
      exact absurd (waits.later candidate List.mem_cons_self) (Nat.lt_irrefl _)

/-- When the stack is empty, all explored states fail. -/
theorem Sound.fails_of_nil {explored : Std.HashSet State} (sound : hunt.Sound ⟨[], explored⟩)
    {state : State} (h : state ∈ explored) : hunt.Fails state := by
  obtain ⟨pending, rest, hstack, waits⟩ := sound.waits _ h
  obtain ⟨rfl, _⟩ := List.append_eq_nil_iff.1 hstack.symm
  exact waits.fails (by simp)

/-- Putting candidates in place of the topmost one keeps the explored states waiting. -/
theorem Sound.replace {candidate : Candidate} {rest successors : List Candidate}
    {explored later : Std.HashSet State} (sound : hunt.Sound ⟨candidate :: rest, explored⟩)
    (waits : hunt.Waits candidate.state successors)
    (hincomplete : ∀ next ∈ successors, ¬ hunt.isComplete next = true)
    (hlater : ∀ state ∈ later, state = candidate.state ∨ state ∈ explored) :
    hunt.Sound ⟨successors ++ rest, later⟩ where
  incomplete next hnext := by
    rcases List.mem_append.1 hnext with hnext | hnext
    · exact hincomplete next hnext
    · exact sound.incomplete next (List.mem_cons_of_mem _ hnext)
  waits state hstate := by
    rcases hlater state hstate with rfl | hstate
    · exact ⟨successors, rest, rfl, waits⟩
    · obtain ⟨pending, tail, hstack, hwaits⟩ := sound.waits state hstate
      cases pending with
      | nil => exact ⟨[], successors ++ rest, rfl, (hwaits.fails (by simp)).waits⟩
      | cons first pending =>
          cases hstack
          exact ⟨successors ++ pending, tail, (List.append_assoc ..).symm, hwaits.replace waits⟩

/-! ## Turns and runs -/

/-- The absorbing successor has the step of its candidate, so only the first successor can be
complete, and it is the chain that the search finds. -/
theorem search_of_find?_successors {candidate complete : Candidate}
    (hincomplete : ¬ hunt.isComplete candidate = true)
    (h : (hunt.successors candidate).find? hunt.isComplete = some complete) :
    hunt.search candidate = some complete.path := by
  rw [hunt.search_of_not_isComplete hincomplete]
  unfold successors at h ⊢
  split at h
  · rename_i position slot step _ _
    have habsorb : (hunt.absorb? step candidate position slot).toList.find? hunt.isComplete =
        none := by
      rw [List.find?_eq_none]
      intro next hnext
      unfold absorb? at hnext
      split at hnext
      · cases List.mem_singleton.1 hnext
        exact hincomplete
      · contradiction
    rw [List.find?_append, habsorb, Option.or_none] at h
    unfold advance? at h ⊢
    split at h
    · rename_i hkind
      obtain ⟨hcomplete, rfl⟩ := by simpa using h
      rw [if_pos hkind, Option.toList_some, List.singleton_append, List.findSome?_cons,
        hunt.search_of_isComplete hcomplete]
    · contradiction
  · contradiction

/-- One turn keeps the explored states waiting and the chain that the search finds. -/
theorem turn_spec {frontier : Frontier} (hfailed : ∀ state ∈ hunt.failed, hunt.Fails state)
    (sound : hunt.Sound frontier) :
    match hunt.turn frontier with
    | .found path => frontier.stack.findSome? hunt.search = some path
    | .exhausted explored =>
        frontier.stack.findSome? hunt.search = none ∧ ∀ state ∈ explored, hunt.Fails state
    | .next later =>
        hunt.Sound later ∧
          later.stack.findSome? hunt.search = frontier.stack.findSome? hunt.search := by
  obtain ⟨stack, explored⟩ := frontier
  cases stack with
  | nil => exact ⟨rfl, fun state hstate => sound.fails_of_nil hstate⟩
  | cons candidate rest =>
      have hincomplete := sound.incomplete candidate List.mem_cons_self
      by_cases hknown : candidate.state ∈ hunt.failed ∨ candidate.state ∈ explored
      · -- a known state fails, so dropping its candidate loses no chain
        have hfails := hknown.elim (hfailed _) sound.fails_of_explored
        rw [turn_of_known hknown]
        refine ⟨sound.replace hfails.waits (by simp) fun _ => Or.inr, ?_⟩
        rw [List.findSome?_cons, (hunt.search_eq_none_iff candidate).2 hfails]
      · rw [turn_of_not_known hknown]
        cases hfind : (hunt.successors candidate).find? hunt.isComplete with
        | some complete =>
            dsimp only
            rw [List.findSome?_cons, search_of_find?_successors hincomplete hfind]
        | none =>
            refine ⟨sound.replace (waits_successors hincomplete) (List.find?_eq_none.1 hfind)
              fun state hstate => ?_, ?_⟩
            · rw [Std.HashSet.mem_insert, beq_iff_eq] at hstate
              exact hstate.imp_left Eq.symm
            · rw [List.findSome?_append, List.findSome?_cons,
                hunt.search_of_not_isComplete hincomplete]
              cases (hunt.successors candidate).findSome? hunt.search <;> rfl

/-- A run finds the chain that the search finds, and otherwise has explored states that fail. -/
theorem run_spec {frontier : Frontier} (hfailed : ∀ state ∈ hunt.failed, hunt.Fails state)
    (sound : hunt.Sound frontier) :
    match hunt.run frontier with
    | .found path => frontier.stack.findSome? hunt.search = some path
    | .exhausted explored =>
        frontier.stack.findSome? hunt.search = none ∧ ∀ state ∈ explored, hunt.Fails state := by
  fun_induction hunt.run frontier with
  | case1 frontier path hturn =>
      have := turn_spec hfailed sound
      rwa [hturn] at this
  | case2 frontier explored hturn =>
      have := turn_spec hfailed sound
      rwa [hturn] at this
  | case3 frontier later hturn ih =>
      have := turn_spec hfailed sound
      rw [hturn] at this
      rw [← this.2]
      exact ih this.1

/-- A hunt finds the chain that the search finds. After a hunt in vain its memory holds only
states that fail. -/
theorem fromStart_spec (hfailed : ∀ state ∈ hunt.failed, hunt.Fails state) (position : Nat)
    (slot : Slot) :
    match hunt.fromStart position slot with
    | .found path => hunt.search (Candidate.start position slot) = some path
    | .exhausted explored =>
        hunt.search (Candidate.start position slot) = none ∧
          ∀ state ∈ explored, hunt.Fails state := by
  by_cases hcomplete : hunt.isComplete (Candidate.start position slot) = true
  · rw [fromStart, if_pos hcomplete]
    exact hunt.search_of_isComplete hcomplete
  · have sound : hunt.Sound ⟨[Candidate.start position slot], ∅⟩ :=
      ⟨by simpa using hcomplete, by simp⟩
    rw [fromStart, if_neg hcomplete]
    simpa using run_spec hfailed sound

/-- A hunt finds a chain exactly if the search does. -/
theorem fromStart_eq_found_iff (hfailed : ∀ state ∈ hunt.failed, hunt.Fails state) {position : Nat}
    {slot : Slot} {path : List Nat} :
    hunt.fromStart position slot = .found path ↔
      hunt.search (Candidate.start position slot) = some path := by
  have hspec := fromStart_spec hfailed position slot
  cases houtcome : hunt.fromStart position slot with
  | found other =>
      rw [houtcome] at hspec
      rw [hspec, Outcome.found.injEq, Option.some.injEq]
  | exhausted explored =>
      rw [houtcome] at hspec
      rw [hspec.1]
      exact ⟨fun h => by contradiction, fun h => by contradiction⟩

/-! ## More claimed events -/

/-- The next event of a hunt is the next one with fewer events claimed. -/
theorem next?_of_claimed {narrow wide : Hunt} (hslots : narrow.slots = wide.slots)
    (hclaimed : ∀ position ∈ wide.claimed, position ∈ narrow.claimed) {state : State}
    {position : Nat} {slot : Slot} (h : narrow.next? state = some (position, slot)) :
    wide.next? state = some (position, slot) := by
  obtain ⟨hview, hfree⟩ := Option.filter_eq_some_iff.1 h
  rw [hslots] at hview
  refine Option.filter_eq_some_iff.2 ⟨hview, ?_⟩
  simp only [Bool.not_eq_true', Bool.eq_false_iff, Std.HashSet.contains_iff_mem, ne_eq] at hfree ⊢
  exact mt (hclaimed position) hfree

/-- A hunt that may use fewer events than another one. -/
structure Narrows (narrow wide : Hunt) : Prop where
  slots : narrow.slots = wide.slots
  steps : narrow.steps = wide.steps
  rule : narrow.rule = wide.rule
  claimed : ∀ position ∈ wide.claimed, position ∈ narrow.claimed

variable {narrow wide : Hunt}

/-- A wider hunt goes on wherever a narrower one does. -/
theorem Narrows.successors_subset (narrows : Narrows narrow wide) (candidate : Candidate) :
    narrow.successors candidate ⊆ wide.successors candidate := by
  intro next hnext
  obtain ⟨position, slot, step, hfound, hstep, hnext⟩ := mem_successors_iff.1 hnext
  have hwide := next?_of_claimed narrows.slots narrows.claimed hfound
  rw [narrows.steps] at hstep
  rw [narrows.rule] at hnext
  exact mem_successors_iff.2 ⟨position, slot, step, hwide, hstep, hnext⟩

/-- What a narrow search finds shows that a wider one finds something too. -/
theorem Narrows.isSome_search (narrows : Narrows narrow wide) (candidate : Candidate)
    (h : (narrow.search candidate).isSome) : (wide.search candidate).isSome := by
  fun_induction narrow.search candidate with
  | case1 candidate hcomplete =>
      have : wide.isComplete candidate = true := by
        simpa [isComplete, narrows.steps] using hcomplete
      rw [wide.search_of_isComplete this]
      rfl
  | case2 candidate hincomplete ih =>
      have hwide : ¬ wide.isComplete candidate = true := by
        simpa [isComplete, narrows.steps] using hincomplete
      rw [wide.search_of_not_isComplete hwide, List.findSome?_isSome_iff]
      obtain ⟨⟨next, hnext⟩, _, hsome⟩ := List.findSome?_isSome_iff.1 h
      exact ⟨next, narrows.successors_subset candidate hnext, ih ⟨next, hnext⟩ hsome⟩

/-- A state that fails keeps failing when more events are claimed. -/
theorem Fails.of_narrows (narrows : Narrows narrow wide) {state : State} (h : wide.Fails state) :
    narrow.Fails state := by
  by_contra hnarrow
  have := narrows.isSome_search ⟨state, []⟩ (Option.isSome_iff_ne_none.2 hnarrow)
  rw [h] at this
  contradiction

end EventChains.Matching.Hunt
