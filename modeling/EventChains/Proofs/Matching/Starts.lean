import EventChains.Proofs.Matching.Span

/-!
# Where chains start

A hunt finds a chain that starts where the hunt starts, so the chains of a scan are in the order of
their first events, whatever the steps are (`find_increasing`, `firstPosition_increasing`). In a
trace without repeated ids no two chains of a pattern have the same first event
(`first?_ne_of_find`).
-/

namespace EventChains

/-- The position of the first event of a chain. -/
def Trace.firstPosition (trace : Trace) (chain : Chain) : Nat :=
  (chain.first?.map fun id => trace.ids.idxOf id).getD 0

namespace Matching

variable {trace : Trace} {hunt : Hunt} {course : Course} {steps : Array Step} {rule : RepeatRule}
  {first : UInt32} {position : Nat} {slot : Slot} {scan : Scan} {path : List Nat}

/-- A chain starts where its hunt starts. -/
theorem head?_of_fromStart (h : hunt.fromStart position slot = .found path) :
    path.head? = some position := by
  have hstep : hunt.Preserves fun candidate => candidate.taken.getLast? = some position := by
    intro candidate hlast next hnext
    obtain ⟨found, _, _, _, _, hnext⟩ := Hunt.mem_successors_iff.1 hnext
    have htaken : next.taken = found :: candidate.taken := by
      rcases hnext with ⟨_, rfl⟩ | ⟨_, rfl⟩ <;> rfl
    have hne : candidate.taken ≠ [] := by
      intro hnil
      rw [hnil] at hlast
      contradiction
    rw [htaken, ← List.singleton_append, List.getLast?_append_of_ne_nil _ hne]
    exact hlast
  obtain ⟨candidate, hlast, rfl⟩ := Hunt.fromStart_induction hstep rfl h
  rw [Candidate.path, List.head?_reverse]
  exact hlast

/-- The chains of a scan start before a position, the latest chain last in trace order. -/
structure Scan.StartsBefore (scan : Scan) (position : Nat) : Prop where
  before : ∀ path ∈ scan.paths, ∀ first, path.head? = some first → first < position
  decreasing : scan.paths.Pairwise fun a b => ∀ i j, a.head? = some i → b.head? = some j → j < i

/-- A visit adds a chain that starts at the position, or none. -/
theorem Scan.StartsBefore.visit (starts : scan.StartsBefore position) :
    (scan.visit course steps rule first position).StartsBefore (position + 1) := by
  have later : scan.StartsBefore (position + 1) :=
    ⟨fun path hpath first hfirst => Nat.lt_succ_of_lt (starts.before path hpath first hfirst),
      starts.decreasing⟩
  unfold Scan.visit
  split
  · exact later
  · split
    · exact later
    · dsimp only
      unfold Scan.record
      split
      · rename_i path hpath
        have hhead := head?_of_fromStart hpath
        refine ⟨List.forall_mem_cons.2 ⟨fun first hfirst => ?_, later.before⟩,
          List.pairwise_cons.2 ⟨fun other hother i j hi hj => ?_, starts.decreasing⟩⟩
        · cases hhead.symm.trans hfirst
          exact Nat.lt_succ_self _
        · cases hhead.symm.trans hi
          exact starts.before other hother j hj
      · exact ⟨later.before, later.decreasing⟩

/-- So do the visits to a range of positions. -/
theorem Scan.StartsBefore.foldl_visit (starts : scan.StartsBefore position) (count : Nat) :
    ((List.range' position count).foldl (Scan.visit course steps rule first)
      scan).StartsBefore (position + count) := by
  induction count generalizing scan position with
  | zero => exact starts
  | succ count ih =>
      rw [List.range'_succ, List.foldl_cons, ← Nat.add_assoc, Nat.add_right_comm]
      exact ih starts.visit

/-- The chains of a pattern are in the order of their first events. -/
theorem find_increasing (course : Course) (pattern : Pattern) (rule : RepeatRule) :
    (course.find pattern rule).Pairwise fun a b =>
      ∀ i j, a.head? = some i → b.head? = some j → i < j := by
  unfold Course.find
  split
  · unfold Course.paths
    split
    · have starts : Scan.StartsBefore {} 0 := ⟨by simp, List.Pairwise.nil⟩
      dsimp only
      rw [List.range_eq_range']
      refine List.pairwise_reverse.2 ((starts.foldl_visit _).decreasing.imp ?_)
      intro a b h i j hi hj
      exact h j i hj hi
    · exact List.Pairwise.nil
  · exact List.Pairwise.nil

/-- The positions of a path that has been found are positions of the trace. -/
theorem FoundPath.lt_size (found : FoundPath trace path) {i : Nat} (hi : i ∈ path) :
    i < trace.order.size := by
  obtain ⟨_, start, hpre⟩ := found.isPrefix
  have hsublist := positions_sublist (List.prefix_refl (trace.walk start))
  exact List.mem_range.1 (hsublist.subset (hpre.subset hi))

/-- The first event of a chain is the one at its first position. -/
theorem first?_chainOfPath (label : String) {i : Nat} (hi : path.head? = some i)
    (hlt : i < trace.order.size) : (chainOfPath trace label path).first? = trace.ids[i]? := by
  have hsize : trace.ids.length = trace.order.size := by simp [Trace.ids]
  cases path with
  | nil => contradiction
  | cons first rest =>
      cases hi
      rw [Chain.first?, events_chainOfPath, List.filterMap_cons,
        List.getElem?_eq_getElem (by omega)]
      rfl

/-- The position of the first event of a chain is the first position of its path. -/
theorem firstPosition_chainOfPath (ordered : trace.Ordered) (label : String) {path : List Nat}
    {i : Nat} (hi : path.head? = some i) (hlt : i < trace.order.size) :
    trace.firstPosition (chainOfPath trace label path) = i := by
  have hids : i < trace.ids.length := by simpa [Trace.ids] using hlt
  rw [Trace.firstPosition, first?_chainOfPath label hi hlt, List.getElem?_eq_getElem hids]
  exact ordered.ids_nodup.idxOf_getElem i hids

/-- The chains of a pattern are in the order of the positions of their first events. -/
theorem firstPosition_increasing (ordered : trace.Ordered) (pattern : Pattern) (label : String)
    (rule : RepeatRule) :
    (find trace pattern label rule).Pairwise fun a b =>
      trace.firstPosition a < trace.firstPosition b := by
  refine List.pairwise_map.2 (List.Pairwise.imp_of_mem ?_ (find_increasing _ pattern rule))
  intro a b ha hb hlt
  have hfoundA := foundPath_of_mem_find ha
  have hfoundB := foundPath_of_mem_find hb
  have hi := List.head?_eq_some_head hfoundA.isPrefix.1
  have hj := List.head?_eq_some_head hfoundB.isPrefix.1
  rw [firstPosition_chainOfPath ordered label hi (hfoundA.lt_size (List.head_mem _)),
    firstPosition_chainOfPath ordered label hj (hfoundB.lt_size (List.head_mem _))]
  exact hlt _ _ hi hj

/-- No two chains of a pattern have the same first event. -/
theorem first?_ne_of_find (ordered : trace.Ordered) (pattern : Pattern) (label : String)
    (rule : RepeatRule) :
    (find trace pattern label rule).Pairwise fun a b => a.first? ≠ b.first? := by
  refine (firstPosition_increasing ordered pattern label rule).imp fun {a b} hlt hfirst => ?_
  rw [Trace.firstPosition, Trace.firstPosition, hfirst] at hlt
  exact Nat.lt_irrefl _ hlt

end Matching

end EventChains
