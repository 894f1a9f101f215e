import EventChains.Proofs.Matching.PlainScan
import EventChains.Proofs.Matching.Starts
import Mathlib.Data.Finset.Lattice.Lemmas

/-!
# The chains of a pattern

A scan tries each event of a trace as the first event of a chain. `mem_scan_iff` says what it finds
there when the events of the chains that start earlier are claimed, and `mem_paths_iff` puts it in
terms of the walk from the event: there is a chain exactly if some start of the walk before the
first claimed event satisfies the tokens, and the chain is the shortest such start.
-/

namespace EventChains.Matching

/-- The positions of the chains that start before a position. -/
def claimedBefore (paths : List (List Nat)) (position : Nat) : Finset Nat :=
  (paths.filter fun path => path.head?.any (· < position)).flatten.toFinset

/-- A position is claimed before another one by a chain that starts there. -/
theorem mem_claimedBefore {paths : List (List Nat)} {claimed position : Nat} :
    claimed ∈ claimedBefore paths position ↔
      ∃ path ∈ paths, (∃ first, path.head? = some first ∧ first < position) ∧ claimed ∈ path := by
  simp [claimedBefore, Option.any_eq_true, and_assoc]

/-- A chain that starts before a position adds its positions to those that are claimed there. -/
theorem claimedBefore_cons {path : List Nat} {paths : List (List Nat)} {first position : Nat}
    (hfirst : path.head? = some first) (hlt : first < position) :
    claimedBefore (path :: paths) position = path.toFinset ∪ claimedBefore paths position := by
  rw [claimedBefore, List.filter_cons_of_pos (by simpa [hfirst] using hlt), List.flatten_cons,
    List.toFinset_append]
  rfl

/-- Where no chain starts before a position, nothing is claimed. -/
theorem claimedBefore_eq_empty {paths : List (List Nat)} {position : Nat}
    (h : ∀ path ∈ paths, ∀ first, path.head? = some first → position ≤ first) :
    claimedBefore paths position = ∅ := by
  refine Finset.eq_empty_of_forall_notMem fun claimed hclaimed => ?_
  obtain ⟨path, hpath, ⟨first, hfirst, hlt⟩, _⟩ := mem_claimedBefore.1 hclaimed
  exact Nat.not_le_of_lt hlt (h path hpath first hfirst)

namespace Plain

variable {rule : RepeatRule} {claimed : Finset Nat} {tokens : List Token} {start : Placed}
  {before later rest : List Placed} {path : List Nat}

/-- A chain starts where it was looked for. -/
theorem head?_of_chainAt? (h : chainAt? rule claimed tokens start later = some path) :
    path.head? = some start.2 := by
  unfold chainAt? at h
  split at h
  · split at h
    · obtain ⟨_, _, rfl⟩ := Option.map_eq_some_iff.1 h
      rfl
    · contradiction
  · contradiction

/-- All chains start at events that the scan has come to. -/
theorem head?_of_mem_scan (h : path ∈ scan rule tokens claimed rest) :
    ∃ placed ∈ rest, path.head? = some placed.2 := by
  induction rest generalizing claimed with
  | nil => contradiction
  | cons start later ih =>
      rw [scan] at h
      split at h
      · rename_i found hfound
        rcases List.mem_cons.1 h with rfl | h
        · exact ⟨start, List.mem_cons_self, head?_of_chainAt? hfound⟩
        · obtain ⟨placed, hplaced, hhead⟩ := ih h
          exact ⟨placed, List.mem_cons_of_mem _ hplaced, hhead⟩
      · obtain ⟨placed, hplaced, hhead⟩ := ih h
        exact ⟨placed, List.mem_cons_of_mem _ hplaced, hhead⟩

/-- No chain starts before the events that the scan comes to. -/
theorem le_of_mem_scan {position first : Nat} (hbound : ∀ placed ∈ rest, position < placed.2)
    (h : path ∈ scan rule tokens claimed rest) (hfirst : path.head? = some first) :
    position < first := by
  obtain ⟨placed, hplaced, hhead⟩ := head?_of_mem_scan h
  cases hfirst.symm.trans hhead
  exact hbound placed hplaced

/-- The chains of a scan are in the order of their first events. -/
theorem scan_increasing (increasing : rest.Pairwise fun a b => a.2 < b.2) :
    (scan rule tokens claimed rest).Pairwise fun a b =>
      ∀ i j, a.head? = some i → b.head? = some j → i < j := by
  induction rest generalizing claimed with
  | nil => exact List.Pairwise.nil
  | cons start later ih =>
      obtain ⟨hbound, increasing⟩ := List.pairwise_cons.1 increasing
      rw [scan]
      split
      · rename_i found hfound
        refine List.pairwise_cons.2 ⟨fun other hother i j hi hj => ?_, ih increasing⟩
        cases hi.symm.trans (head?_of_chainAt? hfound)
        exact le_of_mem_scan hbound hother hj
      · exact ih increasing

/-- The chain that starts at the first event of a scan. -/
theorem mem_scan_cons_iff (hbound : ∀ placed ∈ later, start.2 < placed.2) :
    path ∈ scan rule tokens claimed (start :: later) ∧ path.head? = some start.2 ↔
      chainAt? rule claimed tokens start later = some path := by
  have hlater {claimed : Finset Nat} (h : path ∈ scan rule tokens claimed later) :
      path.head? ≠ some start.2 :=
    fun hhead => Nat.lt_irrefl _ (le_of_mem_scan hbound h hhead)
  rw [scan]
  cases hchain : chainAt? rule claimed tokens start later with
  | none => simpa using hlater
  | some found =>
      have hfound := head?_of_chainAt? hchain
      dsimp only
      rw [List.mem_cons, Option.some.injEq]
      constructor
      · rintro ⟨rfl | hpath, hhead⟩
        · rfl
        · exact absurd hhead (hlater hpath)
      · rintro rfl
        exact ⟨Or.inl rfl, hfound⟩

/-- At its first event a scan has claimed nothing. -/
theorem claimedBefore_scan_cons (hbound : ∀ placed ∈ later, start.2 < placed.2) :
    claimedBefore (scan rule tokens claimed (start :: later)) start.2 = ∅ := by
  refine claimedBefore_eq_empty fun path hpath first hfirst => ?_
  obtain ⟨placed, hplaced, hhead⟩ := head?_of_mem_scan hpath
  cases hfirst.symm.trans hhead
  rcases List.mem_cons.1 hplaced with rfl | hplaced
  · exact Nat.le_refl _
  · exact Nat.le_of_lt (hbound placed hplaced)

/-- The chain that a scan finds at an event is the one that is there when the events of the chains
before it are claimed. -/
theorem mem_scan_iff (increasing : (before ++ start :: later).Pairwise fun a b => a.2 < b.2) :
    path ∈ scan rule tokens claimed (before ++ start :: later) ∧ path.head? = some start.2 ↔
      chainAt? rule
        (claimed ∪ claimedBefore (scan rule tokens claimed (before ++ start :: later)) start.2)
        tokens start later = some path := by
  -- the scan goes through `before` event by event, and each chain found there is claimed
  induction before generalizing claimed with
  | nil =>
      obtain ⟨hbound, _⟩ := List.pairwise_cons.1 increasing
      rw [List.nil_append, claimedBefore_scan_cons hbound, Finset.union_empty]
      exact mem_scan_cons_iff hbound
  | cons earlier before ih =>
      obtain ⟨hbound, increasing⟩ := List.pairwise_cons.1 increasing
      have hearlier : earlier.2 < start.2 :=
        hbound start (List.mem_append_right _ List.mem_cons_self)
      rw [List.cons_append, scan]
      cases hchain : chainAt? rule claimed tokens earlier (before ++ start :: later) with
      | none => exact ih increasing
      | some found =>
          have hfound := head?_of_chainAt? hchain
          dsimp only
          rw [claimedBefore_cons hfound hearlier, ← Finset.union_assoc, ← ih increasing,
            List.mem_cons]
          refine and_congr_left fun hhead => or_iff_right ?_
          rintro rfl
          exact Nat.ne_of_lt hearlier (Option.some.inj (hfound.symm.trans hhead))

end Plain

/-! ## Chains and walks -/

variable {trace : Trace} {pattern : Pattern} {rule : RepeatRule} {path : List Nat}

/-- The chain that starts at a position is the shortest start of the walk from there that satisfies
the tokens, where the walk ends before the first event of an earlier chain. -/
theorem mem_paths_iff {name : String} {edge : Edge} {following : List Token}
    (htokens : pattern.tokens = .named name edge :: following) (position : Nat) :
    path ∈ Plain.paths trace pattern rule ∧ path.head? = some position ↔
      ∃ taken, Shortest rule pattern.tokens
        (beforeClaimed (claimedBefore (Plain.paths trace pattern rule) position)
          (trace.walk position)) taken ∧ taken.map Prod.snd = path := by
  by_cases hlt : position < trace.placed.length
  · obtain ⟨event, before, later, hplaced, hwalk⟩ := trace.walk_of_lt hlt
    have increasing := trace.placed_increasing
    rw [hplaced] at increasing
    have hmem : path ∈ Plain.paths trace pattern rule ∧ path.head? = some position ↔
        Plain.chainAt? rule (∅ ∪ claimedBefore (Plain.paths trace pattern rule) position)
          pattern.tokens (event, position) later = some path := by
      rw [Plain.paths, hplaced]
      exact Plain.mem_scan_iff increasing
    rw [hmem, Finset.empty_union, hwalk, htokens]
    exact Plain.chainAt?_eq_some_iff
  · rw [trace.walk_of_le (Nat.le_of_not_lt hlt)]
    constructor
    · rintro ⟨hpath, hhead⟩
      obtain ⟨placed, hplaced, hfirst⟩ := Plain.head?_of_mem_scan hpath
      cases hhead.symm.trans hfirst
      exact absurd (trace.position_lt hplaced) hlt
    · rintro ⟨taken, shortest, _⟩
      have hsatisfies := shortest.satisfies
      rw [List.prefix_nil.1 shortest.isPrefix, htokens] at hsatisfies
      cases hsatisfies

/-- Under both rules the whole trace of a load is a load. -/
theorem load_mem_find (rule : RepeatRule) : [0, 1, 2] ∈ (Course.ofTrace .load).find .load rule := by
  have hshortest : (shortest? rule Pattern.load.tokens (beforeClaimed ∅ (Trace.load.walk 0))).map
      (·.map Prod.snd) = some [0, 1, 2] := by
    cases rule <;> decide +kernel
  obtain ⟨taken, htaken, hpath⟩ := Option.map_eq_some_iff.1 hshortest
  have hempty : claimedBefore (Plain.paths .load .load rule) 0 = ∅ :=
    claimedBefore_eq_empty fun _ _ _ _ => Nat.zero_le _
  rw [find_eq_paths kindsFit_load (Pattern.separated_of_compile Pattern.compile_load) rule]
  have htokens : Pattern.load.tokens =
      .named "load" .opening :: [.wildcard, .named "load" .closing] := rfl
  refine ((mem_paths_iff htokens 0).2 ⟨taken, ?_, hpath⟩).1
  rw [hempty]
  exact shortest?_eq_some_iff.1 htaken

/-- The chains of a pattern have an event for each position of their paths. -/
theorem events_of_mem_find (label : String)
    (hpath : path ∈ (Course.ofTrace trace).find pattern rule) :
    (chainOfPath trace label path).events.map some = path.map (trace.ids[·]?) :=
  map_some_events_chainOfPath label fun _ hi => (foundPath_of_mem_find hpath).lt_size hi

/-- At every start a compiled pattern has a chain exactly if some start of the walk before the first
event of an earlier chain satisfies the pattern, and the chain is the shortest such start: its
events are those at the positions of that start, one after the other. The kinds of the trace fit
into numbers of 32 bits. -/
theorem find_shortest {source : String} {pattern : Pattern}
    (h : Pattern.compile source = .ok pattern) (fit : trace.KindsFit) (label : String)
    (rule : RepeatRule) :
    let paths := (Course.ofTrace trace).find pattern rule
    find trace pattern label rule = paths.map (chainOfPath trace label) ∧
      (∀ path ∈ paths,
        (chainOfPath trace label path).events.map some = path.map (trace.ids[·]?)) ∧
      ∀ position,
        let free := beforeClaimed (claimedBefore paths position) (trace.walk position)
        ((∃ path ∈ paths, path.head? = some position) ↔
          ∃ taken, taken <+: free ∧ Satisfies rule pattern.tokens taken) ∧
        ∀ path ∈ paths, path.head? = some position →
          ∃ taken, Shortest rule pattern.tokens free taken ∧ taken.map Prod.snd = path := by
  obtain ⟨name, edge, following, htokens⟩ := Pattern.tokens_of_compile h
  intro paths
  have hpaths : paths = Plain.paths trace pattern rule :=
    find_eq_paths fit (Pattern.separated_of_compile h) rule
  refine ⟨rfl, fun path hpath => events_of_mem_find label hpath, fun position => ?_⟩
  rw [hpaths]
  dsimp only
  refine ⟨⟨?_, ?_⟩, fun path hpath hhead => (mem_paths_iff htokens position).1 ⟨hpath, hhead⟩⟩
  · rintro ⟨path, hpath, hhead⟩
    obtain ⟨taken, shortest, _⟩ := (mem_paths_iff htokens position).1 ⟨hpath, hhead⟩
    exact ⟨taken, shortest.isPrefix, shortest.satisfies⟩
  · rintro ⟨taken, hpre, hsatisfies⟩
    obtain ⟨found, hfound⟩ :=
      Option.isSome_iff_exists.1 (isSome_shortest? hsatisfies hpre)
    obtain ⟨hpath, hhead⟩ :=
      (mem_paths_iff htokens position).2 ⟨found, shortest?_eq_some_iff.1 hfound, rfl⟩
    exact ⟨_, hpath, hhead⟩

/-- A load has a chain wherever some start of the walk is a load, and the chain is the shortest. -/
theorem find_shortest_load :
    Pattern.compile "load+ * load-" = .ok .load ∧ Trace.load.KindsFit ∧
      let paths := (Course.ofTrace .load).find .load .noRepeat
      find .load .load "loads" .noRepeat = paths.map (chainOfPath .load "loads") ∧
        (∀ path ∈ paths,
          (chainOfPath .load "loads" path).events.map some = path.map (Trace.load.ids[·]?)) ∧
        ∀ position,
          let free := beforeClaimed (claimedBefore paths position) (Trace.load.walk position)
          ((∃ path ∈ paths, path.head? = some position) ↔
            ∃ taken, taken <+: free ∧ Satisfies .noRepeat Pattern.load.tokens taken) ∧
          ∀ path ∈ paths, path.head? = some position →
            ∃ taken, Shortest .noRepeat Pattern.load.tokens free taken ∧
              taken.map Prod.snd = path :=
  ⟨Pattern.compile_load, kindsFit_load,
    find_shortest Pattern.compile_load kindsFit_load "loads" .noRepeat⟩

end EventChains.Matching
