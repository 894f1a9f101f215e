import EventChains.Matching.Scan
import EventChains.Proofs.Matching.Memory
import Mathlib.Data.Finset.Dedup
import Mathlib.Data.Finset.Empty
import Mathlib.Data.Finset.Lattice.Basic

/-!
# The visits of a scan

A scan hands its claimed events and its memory from one start to the next (`Scan.Tracks`).
`Scan.Tracks.visit` says all that a visit does: it adds the chain that it finds, or finds none and
claims nothing. So every chain of a scan has been found by one of its visits
(`Scan.Tracks.finds_of_mem_paths`), and stays (`Scan.Tracks.mem_paths_foldl_visit`).
-/

namespace EventChains.Matching

/-- The hunts that a scan starts. -/
def Scan.hunt (scan : Scan) (course : Course) (steps : List Step) (rule : RepeatRule) : Hunt where
  slots := course.slots
  steps := steps.toArray
  rule := rule
  claimed := scan.claimed
  failed := scan.failed

/-- A scan has claimed some events, and remembers only states that fail. -/
structure Scan.Tracks (scan : Scan) (trace : Trace) (steps : List Step) (rule : RepeatRule)
    (claimed : Finset Nat) : Prop where
  claimed : ∀ {position}, position ∈ scan.claimed ↔ position ∈ claimed
  failed : ∀ state ∈ scan.failed, (scan.hunt (.ofTrace trace) steps rule).Fails state

variable {trace : Trace} {steps : List Step} {rule : RepeatRule} {claimed : Finset Nat}
  {scan : Scan} {first : UInt32} {path : List Nat}

/-- After a hunt in vain a scan remembers what it remembered before and what has been explored. -/
theorem Scan.mem_failed_record {explored : Std.HashSet State} {state : State} :
    state ∈ (scan.record (.exhausted explored)).failed ↔ state ∈ scan.failed ∨ state ∈ explored :=
  Std.HashSet.mem_union_iff

theorem Scan.tracks_empty (trace : Trace) (steps : List Step) (rule : RepeatRule) :
    Scan.Tracks {} trace steps rule ∅ where
  claimed := by simp
  failed := by simp

namespace Scan.Tracks

/-- The hunts of a scan know of states that fail. -/
theorem hunt_failed (tracks : scan.Tracks trace steps rule claimed) :
    ∀ state ∈ (scan.hunt (.ofTrace trace) steps rule).failed,
      (scan.hunt (.ofTrace trace) steps rule).Fails state :=
  tracks.failed

/-- The events of a chain are claimed, and what failed before fails without them too. -/
theorem record_found (tracks : Scan.Tracks scan trace steps rule claimed) (path : List Nat) :
    Scan.Tracks (scan.record (.found path)) trace steps rule (claimed ∪ path.toFinset) where
  claimed {position} := by
    show position ∈ scan.claimed.insertMany path ↔ _
    rw [Std.HashSet.mem_insertMany_list, tracks.claimed, Finset.mem_union, List.mem_toFinset,
      List.contains_iff_mem]
  failed state hstate := by
    refine Hunt.Fails.of_narrows ?_ (tracks.failed state hstate)
    exact ⟨rfl, rfl, rfl, fun position hclaimed => Std.HashSet.mem_insertMany_of_mem hclaimed⟩

/-- The states explored in vain are remembered, and they fail. -/
theorem record_exhausted (tracks : Scan.Tracks scan trace steps rule claimed)
    {explored : Std.HashSet State}
    (hexplored : ∀ state ∈ explored, (scan.hunt (.ofTrace trace) steps rule).Fails state) :
    Scan.Tracks (scan.record (.exhausted explored)) trace steps rule claimed where
  claimed := tracks.claimed
  failed state hstate := by
    have hfails : (scan.hunt (.ofTrace trace) steps rule).Fails state :=
      (mem_failed_record.1 hstate).elim (tracks.failed state) (hexplored state)
    refine Hunt.Fails.of_narrows ?_ hfails
    exact ⟨rfl, rfl, rfl, fun _ => id⟩

end Scan.Tracks

/-- A scan passes over a start that is claimed or is not of the first step's kind, and otherwise
records the outcome of a hunt. -/
theorem Scan.visit_eq {course : Course} {position : Nat} (h : position < course.slots.size) :
    scan.visit course steps.toArray rule first position =
      if position ∉ scan.claimed ∧ course.slots[position].kind = first then
        scan.record ((scan.hunt course steps rule).fromStart position course.slots[position])
      else scan := by
  unfold visit
  rw [Array.getElem?_eq_getElem h]
  dsimp only
  by_cases hclaimed : position ∈ scan.claimed
  · rw [if_pos (by simp [hclaimed]), if_neg (by simp [hclaimed])]
  · by_cases hkind : course.slots[position].kind = first
    · rw [if_neg (by simp [hclaimed, hkind]), if_pos ⟨hclaimed, hkind⟩]
      rfl
    · rw [if_pos (by simp [hkind]), if_neg (by simp [hkind])]

/-- A visit to a position finds a chain. -/
def Scan.Finds (scan : Scan) (course : Course) (steps : List Step) (rule : RepeatRule)
    (first : UInt32) (position : Nat) (path : List Nat) : Prop :=
  ∃ slot, course.slots[position]? = some slot ∧ position ∉ scan.claimed ∧ slot.kind = first ∧
    (scan.hunt course steps rule).fromStart position slot = .found path

/-- A visit adds the chain that it finds, or finds none and claims nothing. -/
theorem Scan.Tracks.visit (tracks : scan.Tracks trace steps rule claimed) (first : UInt32)
    (position : Nat) :
    let course := Course.ofTrace trace
    let visited := scan.visit course steps.toArray rule first position
    (∃ path, scan.Finds course steps rule first position path ∧
        visited.Tracks trace steps rule (claimed ∪ path.toFinset) ∧
        visited.paths = path :: scan.paths) ∨
      ((∀ path, ¬ scan.Finds course steps rule first position path) ∧
        visited.Tracks trace steps rule claimed ∧ visited.paths = scan.paths) := by
  intro course visited
  by_cases hlt : position < course.slots.size
  · have hvisited : visited = _ := visit_eq hlt
    have hslot := Array.getElem?_eq_getElem hlt
    split at hvisited
    · rename_i hstart
      have hspec := Hunt.fromStart_spec tracks.hunt_failed position course.slots[position]
      rw [hvisited]
      cases houtcome : (scan.hunt course steps rule).fromStart position course.slots[position] with
      | found path =>
          exact .inl ⟨path, ⟨_, hslot, hstart.1, hstart.2, houtcome⟩, tracks.record_found path, rfl⟩
      | exhausted explored =>
          rw [houtcome] at hspec
          refine .inr ⟨?_, tracks.record_exhausted hspec.2, rfl⟩
          rintro path ⟨slot, hother, _, _, hfound⟩
          cases hslot.symm.trans hother
          cases houtcome.symm.trans hfound
    · rename_i hstart
      rw [hvisited]
      refine .inr ⟨?_, tracks, rfl⟩
      rintro path ⟨slot, hother, hfree, hkind, _⟩
      cases hslot.symm.trans hother
      exact hstart ⟨hfree, hkind⟩
  · have hslot : course.slots[position]? = none := Array.getElem?_eq_none (Nat.le_of_not_lt hlt)
    have hvisited : visited = scan := by
      simp only [visited, Scan.visit, hslot]
    rw [hvisited]
    refine .inr ⟨?_, tracks, rfl⟩
    rintro path ⟨slot, hother, _⟩
    cases hslot.symm.trans hother

/-- A chain of a scan has been found by one of its visits. -/
theorem Scan.Tracks.finds_of_mem_paths (tracks : scan.Tracks trace steps rule claimed)
    {positions : List Nat}
    (hpath : path ∈ (positions.foldl
      (Scan.visit (.ofTrace trace) steps.toArray rule first) scan).paths) :
    path ∈ scan.paths ∨ ∃ position ∈ positions, ∃ before claimed,
      Scan.Tracks before trace steps rule claimed ∧
        before.Finds (.ofTrace trace) steps rule first position path := by
  induction positions generalizing scan claimed with
  | nil => exact .inl hpath
  | cons position rest ih =>
      rcases tracks.visit first position with
        ⟨found, hfinds, visited, hpaths⟩ | ⟨_, visited, hpaths⟩
      · rcases ih visited hpath with hmem | ⟨later, hlater, hfound⟩
        · rcases List.mem_cons.1 (hpaths ▸ hmem) with rfl | hmem
          · exact .inr ⟨position, List.mem_cons_self, scan, claimed, tracks, hfinds⟩
          · exact .inl hmem
        · exact .inr ⟨later, List.mem_cons_of_mem _ hlater, hfound⟩
      · rcases ih visited hpath with hmem | ⟨later, hlater, hfound⟩
        · exact .inl (hpaths ▸ hmem)
        · exact .inr ⟨later, List.mem_cons_of_mem _ hlater, hfound⟩

/-- A scan keeps the chains that it has found. -/
theorem Scan.Tracks.mem_paths_foldl_visit (tracks : scan.Tracks trace steps rule claimed)
    (positions : List Nat) (hpath : path ∈ scan.paths) :
    path ∈ (positions.foldl (Scan.visit (.ofTrace trace) steps.toArray rule first) scan).paths := by
  induction positions generalizing scan claimed with
  | nil => exact hpath
  | cons position rest ih =>
      rcases tracks.visit first position with ⟨found, _, visited, hpaths⟩ | ⟨_, visited, hpaths⟩
      · exact ih visited (hpaths ▸ List.mem_cons_of_mem _ hpath)
      · exact ih visited (hpaths ▸ hpath)

end EventChains.Matching
