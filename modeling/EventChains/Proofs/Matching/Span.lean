import EventChains.Proofs.Matching.CourseCoding
import EventChains.Proofs.Matching.Hunt
import EventChains.Proofs.Matching.Path

/-!
# Chains with the same ends

A hunt decides how far along a walk to go, but not where the walk leads: every path that it finds is
the beginning of the walk from its first event (`FoundPath.isPrefix`), whatever steps, repeat rule
and claimed events the hunt has. So two chains with the same first and the same last event have the
same events (`Found.events_eq`).
-/

namespace EventChains.Matching

/-- A candidate goes along the walk from a start: it has taken the beginning of the walk, and has
the rest in view. -/
def AlongWalk (trace : Trace) (start : Nat) (candidate : Candidate) : Prop :=
  ∃ view, Shows candidate.state view ∧
    candidate.path ++ (view.walk (trace.placed.drop candidate.state.position)).map Prod.snd =
      (trace.walk start).map Prod.snd

variable {trace : Trace} {hunt : Hunt} {start position : Nat} {slot : Slot} {path : List Nat}

/-- The next event in view of a state is the next one of the walk. -/
theorem Shows.walk_eq {state : State} {view : View} (shown : Shows state view)
    (h : state.nextInView? (Course.ofTrace trace).slots state.position = some (position, slot)) :
    ∃ event, (Course.ofTrace trace).Stands slot event ∧
      view.walk (trace.placed.drop state.position) =
        (event, position) :: (view.after event).walk (trace.placed.drop (position + 1)) := by
  have hnext := shown.nextInView?_eq trace state.position
  cases hview : view.next? (trace.placed.drop state.position) with
  | none =>
      rw [hview, h] at hnext
      contradiction
  | some next =>
      obtain ⟨⟨event, found⟩, later⟩ := next
      rw [hview] at hnext
      obtain ⟨rfl, slot', stands, hfound⟩ := hnext
      cases hfound.symm.trans h
      exact ⟨event, stands, View.walk_of_next?_eq_some hview⟩

/-- The first candidate goes along the walk from its first event. -/
theorem alongWalk_start (h : (Course.ofTrace trace).slots[start]? = some slot) :
    AlongWalk trace start (Candidate.start start slot) := by
  obtain ⟨hlt, rfl⟩ := Array.getElem?_eq_some_iff.1 h
  obtain ⟨event, stands, hdrop⟩ := Course.slot_stands hlt
  refine ⟨View.start event, Shows.start start stands, ?_⟩
  rw [Trace.walk, hdrop]
  rfl

/-- Taking the next event goes one step further along the walk. -/
theorem AlongWalk.take {candidate next : Candidate} (along : AlongWalk trace start candidate)
    (h : candidate.state.nextInView? (Course.ofTrace trace).slots candidate.state.position =
      some (position, slot))
    (htaken : next.taken = position :: candidate.taken)
    (hposition : next.state.position = position + 1)
    (hscopes : next.state.scopes = (candidate.state.take position slot).scopes)
    (hflows : next.state.flows = (candidate.state.take position slot).flows) :
    AlongWalk trace start next := by
  obtain ⟨view, shown, hwalk⟩ := along
  obtain ⟨event, stands, hnext⟩ := shown.walk_eq h
  have taken := shown.take position stands
  refine ⟨view.after event, ⟨hscopes ▸ taken.scopes, hflows ▸ taken.flows⟩, ?_⟩
  rw [hnext] at hwalk
  rw [← hwalk, hposition, Candidate.path, htaken, List.reverse_cons, List.append_assoc]
  rfl

/-- Whether the next event completes a step or a wildcard takes it, the walk is the same. -/
theorem AlongWalk.successor {candidate : Candidate}
    (hslots : hunt.slots = (Course.ofTrace trace).slots)
    (along : AlongWalk trace start candidate) :
    ∀ next ∈ hunt.successors candidate, AlongWalk trace start next := by
  intro next hnext
  obtain ⟨position, slot, step, hfound, _, hnext⟩ := Hunt.mem_successors_iff.1 hnext
  have hview := (Option.filter_eq_some_iff.1 hfound).1
  rw [hslots] at hview
  rcases hnext with ⟨_, rfl⟩ | ⟨_, rfl⟩
  · exact along.take hview rfl rfl rfl rfl
  · exact along.take hview rfl rfl rfl rfl

/-- A path that some hunt on the trace has found, whatever its steps, its repeat rule, the claimed
events and the states that are known to fail. -/
def FoundPath (trace : Trace) (path : List Nat) : Prop :=
  ∃ (hunt : Hunt) (start : Nat) (slot : Slot), hunt.slots = (Course.ofTrace trace).slots ∧
    hunt.slots[start]? = some slot ∧ hunt.fromStart start slot = .found path

/-- A path that has been found is the beginning of the walk from its first event. -/
theorem FoundPath.isPrefix (found : FoundPath trace path) :
    path ≠ [] ∧ ∃ start, path <+: (trace.walk start).map Prod.snd := by
  obtain ⟨hunt, start, slot, hslots, hslot, hpath⟩ := found
  rw [hslots] at hslot
  have hstep : hunt.Preserves fun candidate =>
      candidate.path ≠ [] ∧ AlongWalk trace start candidate := by
    intro candidate ⟨_, along⟩ next hnext
    refine ⟨?_, along.successor hslots next hnext⟩
    obtain ⟨_, _, _, _, _, hnext⟩ := Hunt.mem_successors_iff.1 hnext
    rcases hnext with ⟨_, rfl⟩ | ⟨_, rfl⟩ <;>
      exact mt List.reverse_eq_nil_iff.1 (List.cons_ne_nil _ _)
  obtain ⟨candidate, ⟨hne, _, _, hwalk⟩, rfl⟩ :=
    Hunt.fromStart_induction hstep ⟨List.cons_ne_nil _ _, alongWalk_start hslot⟩ hpath
  exact ⟨hne, start, _, hwalk⟩

/-! ## Chains -/

/-- A chain whose path has been found; its label may be any. -/
def Found (trace : Trace) (chain : Chain) : Prop :=
  ∃ path, FoundPath trace path ∧ chain = chainOfPath trace chain.label path

/-- A scan finds its chains by hunts. -/
theorem foundPath_visit {steps : Array Step} {rule : RepeatRule} {first : UInt32} {scan : Scan}
    (h : ∀ path ∈ scan.paths, FoundPath trace path) (position : Nat) :
    ∀ path ∈ (scan.visit (.ofTrace trace) steps rule first position).paths,
      FoundPath trace path := by
  unfold Scan.visit
  split
  · exact h
  · rename_i slot hslot
    split
    · exact h
    · dsimp only
      unfold Scan.record
      split
      · rename_i path hpath
        exact List.forall_mem_cons.2 ⟨⟨_, position, slot, rfl, hslot, hpath⟩, h⟩
      · exact h

theorem foundPath_foldl_visit {steps : Array Step} {rule : RepeatRule} {first : UInt32}
    {scan : Scan}
    (h : ∀ path ∈ scan.paths, FoundPath trace path) (positions : List Nat) :
    ∀ path ∈ (positions.foldl (Scan.visit (.ofTrace trace) steps rule first) scan).paths,
      FoundPath trace path := by
  induction positions generalizing scan with
  | nil => exact h
  | cons position rest ih => exact ih (foundPath_visit h position)

/-- The paths of a pattern are those of a scan for its steps, of which the first is a direct one. -/
theorem Course.mem_find_iff {course : Course} {pattern : Pattern} {rule : RepeatRule} :
    path ∈ course.find pattern rule ↔ ∃ first more,
      Step.ofTokens? course.kinds false pattern.tokens = some (.direct first :: more) ∧
        path ∈ ((List.range course.slots.size).foldl
          (Scan.visit course (Step.direct first :: more).toArray rule first) {}).paths := by
  unfold Course.find
  cases Step.ofTokens? course.kinds false pattern.tokens with
  | none => simp
  | some steps =>
      cases steps with
      | nil => simp [Course.paths]
      | cons step more => cases step <;> simp [Course.paths]

/-- All paths of a pattern have been found by hunts. -/
theorem foundPath_of_mem_find {pattern : Pattern} {rule : RepeatRule}
    (h : path ∈ (Course.ofTrace trace).find pattern rule) : FoundPath trace path := by
  obtain ⟨first, more, _, hpath⟩ := Course.mem_find_iff.1 h
  exact foundPath_foldl_visit (by simp) _ path hpath

/-- All chains of a pattern have been found by hunts. -/
theorem found_of_mem_find {pattern : Pattern} {label : String} {rule : RepeatRule} {chain : Chain}
    (h : chain ∈ find trace pattern label rule) : Found trace chain := by
  obtain ⟨path, hpath, rfl⟩ := List.mem_map.1 h
  exact ⟨path, foundPath_of_mem_find hpath, rfl⟩

/-- The ids along the walk from a position. -/
def walkIds (trace : Trace) (start : Nat) : List Nat :=
  ((trace.walk start).map Prod.snd).filterMap (trace.ids[·]?)

/-- The events of a chain that has been found are the beginning of a walk. -/
theorem Found.events_isPrefix {chain : Chain} (found : Found trace chain) :
    ∃ start, chain.events <+: walkIds trace start := by
  obtain ⟨path, hfound, hchain⟩ := found
  obtain ⟨_, start, hpre⟩ := hfound.isPrefix
  refine ⟨start, ?_⟩
  rw [hchain, events_chainOfPath]
  exact hpre.filterMap _

/-- A chain that has been found has events. -/
theorem Found.events_ne_nil {chain : Chain} (found : Found trace chain) : chain.events ≠ [] := by
  obtain ⟨path, hfound, hchain⟩ := found
  obtain ⟨hne, start, hpre⟩ := hfound.isPrefix
  rw [hchain, events_chainOfPath]
  cases path with
  | nil => contradiction
  | cons position rest =>
      have hwalk : position ∈ (trace.walk start).map Prod.snd :=
        hpre.subset List.mem_cons_self
      have hlt : position < trace.ids.length := by
        have := (positions_sublist (List.prefix_refl (trace.walk start))).subset hwalk
        simpa [Trace.ids] using this
      simp [hlt]

/-- No event comes twice on a walk. -/
theorem nodup_walkIds (ordered : trace.Ordered) (start : Nat) : (walkIds trace start).Nodup := by
  have hsublist := events_sublist "" (positions_sublist (List.prefix_refl (trace.walk start)))
  rw [events_chainOfPath] at hsublist
  exact ordered.ids_nodup.sublist hsublist

/-- A walk starts with the event at its start. -/
theorem head?_walkIds (trace : Trace) (start : Nat) :
    (walkIds trace start).head? = trace.ids[start]? := by
  have hlength : trace.ids.length = trace.placed.length := by
    simp [Trace.ids, Trace.placed, Trace.events]
  by_cases hlt : start < trace.placed.length
  · obtain ⟨event, _, later, _, hwalk⟩ := trace.walk_of_lt hlt
    rw [walkIds, hwalk, List.map_cons, List.filterMap_cons,
      List.getElem?_eq_getElem (by omega : start < trace.ids.length)]
    rfl
  · rw [walkIds, trace.walk_of_le (by omega), List.getElem?_eq_none (by omega)]
    rfl

/-- Some events at the start of a walk begin with the event where the walk starts. -/
theorem head?_of_prefix_walkIds {start : Nat} {events : List Nat}
    (hpre : events <+: walkIds trace start) (hne : events ≠ []) :
    events.head? = trace.ids[start]? := by
  obtain ⟨rest, hrest⟩ := hpre
  rw [← head?_walkIds, ← hrest, List.head?_append_of_ne_nil _ hne]

/-- A start of a list without repetitions that ends like the list is the whole list. -/
theorem eq_of_prefix_of_getLast? {α : Type} {items first : List α} (nodup : items.Nodup)
    (hpre : first <+: items) (hne : first ≠ []) (hlast : first.getLast? = items.getLast?) :
    first = items := by
  obtain ⟨rest, rfl⟩ := hpre
  by_contra hrest
  have hrest : rest ≠ [] := fun h => hrest (by rw [h, List.append_nil])
  rw [List.getLast?_append_of_ne_nil _ hrest, List.getLast?_eq_some_getLast hne,
    List.getLast?_eq_some_getLast hrest, Option.some.injEq] at hlast
  have hdisjoint := (List.nodup_append'.1 nodup).2.2
  exact hdisjoint (List.getLast_mem hne) (hlast ▸ List.getLast_mem hrest)

/-- Chains that have been found and have the same first and the same last event have the same
events. -/
theorem Found.events_eq (ordered : trace.Ordered) {a b : Chain} (ha : Found trace a)
    (hb : Found trace b) (hfirst : a.first? = b.first?) (hlast : a.last? = b.last?) :
    a.events = b.events := by
  obtain ⟨i, hi⟩ := ha.events_isPrefix
  obtain ⟨j, hj⟩ := hb.events_isPrefix
  have hfirst : a.events.head? = b.events.head? := hfirst
  have hlast : a.events.getLast? = b.events.getLast? := hlast
  have hane := ha.events_ne_nil
  -- both chains begin with the event at the start of their walk, so the walks are the same
  have hij : i = j := by
    have hai := head?_of_prefix_walkIds hi hane
    have hbj := head?_of_prefix_walkIds hj hb.events_ne_nil
    rw [List.head?_eq_some_head hane] at hai
    have hlt : i < trace.ids.length := (List.getElem?_eq_some_iff.1 hai.symm).1
    refine (List.getElem?_inj hlt ordered.ids_nodup).1 ?_
    rw [← hbj, ← hfirst, List.head?_eq_some_head hane, hai]
  subst hij
  have nodup := nodup_walkIds ordered i
  rcases List.prefix_or_prefix_of_prefix hi hj with hab | hba
  · exact eq_of_prefix_of_getLast? (nodup.sublist hj.sublist) hab hane hlast
  · exact (eq_of_prefix_of_getLast? (nodup.sublist hi.sublist) hba hb.events_ne_nil
      hlast.symm).symm

end EventChains.Matching
