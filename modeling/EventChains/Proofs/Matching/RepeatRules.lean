import EventChains.Proofs.Matching.Coverage
import EventChains.Proofs.Matching.Parts
import EventChains.Proofs.Matching.Starts
import EventChains.Proofs.Matching.Ways

/-!
# Chains without the repeat rule

A scan without the repeat rule has a chain wherever one under the rule has, or an earlier one: until
a scan finds its first chain no events are claimed, so there its hunts may use all events that the
hunts of the other scan may use (`exists_first_unrestricted`). `found_iff` says what a hunt finds in
terms of the walk, whatever events are claimed and whatever failing states are remembered. The main
statement is `found_of_noRepeat`.
-/

namespace EventChains.Matching

variable {trace : Trace} {rule : RepeatRule} {tokens following : List Token} {steps : List Step}
  {claimed : Finset Nat} {scan : Scan} {first : UInt32} {position : Nat} {path : List Nat}

/-! ## One hunt -/

/-- A hunt of a scan finds the chain that is the shortest start of the walk, before the first
claimed event, to satisfy the tokens after the first one. -/
theorem found_iff (fit : trace.KindsFit) {name : String} {edge : Edge} {slot : Slot} {event : Event}
    (separated : Pattern.Separated following)
    (hsteps : Step.ofTokens? (Course.ofTrace trace).kinds false (.named name edge :: following) =
      some steps)
    (tracks : Scan.Tracks scan trace steps rule claimed)
    (stands : (Course.ofTrace trace).Stands slot event) :
    (scan.hunt (.ofTrace trace) steps rule).fromStart position slot = .found path ↔
      ∃ taken, Shortest rule following
        (beforeClaimed claimed ((View.start event).walk (trace.placed.drop (position + 1))))
          taken ∧ position :: taken.map Prod.snd = path := by
  obtain ⟨n, more, _, hmore, rfl⟩ := Step.ofTokens?_named hsteps
  show (scan.hunt (.ofTrace trace) (.direct n :: more) rule).fromStart position slot = _ ↔ _
  rw [tracks.fromStart_eq_found_iff fit separated hmore stands, Plain.complete_eq_shortest?,
    shortestAfter?_empty, Option.map_map, Option.map_eq_some_iff]
  exact exists_congr fun taken => and_congr_left fun _ => shortest?_eq_some_iff

/-- What a hunt finds under some rule, a hunt without the repeat rule finds or ends earlier, if it
may use all events that the first one may use. -/
theorem exists_found_unrestricted {strict free : Scan} {fewer : Finset Nat} {slot : Slot}
    (hstrict : strict.Tracks trace steps rule claimed)
    (hfree : free.Tracks trace steps .unrestricted fewer) (hfewer : fewer ⊆ claimed)
    (h : (strict.hunt (.ofTrace trace) steps rule).fromStart position slot = .found path) :
    ∃ other, (free.hunt (.ofTrace trace) steps .unrestricted).fromStart position slot =
      .found other ∧ other <+: path := by
  have loosens : (strict.hunt (.ofTrace trace) steps rule).Loosens
      (free.hunt (.ofTrace trace) steps .unrestricted) :=
    ⟨rfl, rfl, rfl, fun _ h => hstrict.claimed.2 (hfewer (hfree.claimed.1 h))⟩
  exact loosens.exists_found hstrict.failed hfree.failed h

/-! ## A whole scan -/

/-- If visits find a chain at a position as long as nothing is claimed, there is one that starts
there or before. -/
theorem Scan.Tracks.exists_mem_paths_le (tracks : scan.Tracks trace steps rule ∅)
    {positions : List Nat} (increasing : positions.Pairwise (· < ·)) (hmem : position ∈ positions)
    (h : ∀ idle : Scan, idle.Tracks trace steps rule ∅ →
      ∃ path, idle.Finds (.ofTrace trace) steps rule first position path) :
    ∃ path ∈ (positions.foldl (Scan.visit (.ofTrace trace) steps.toArray rule first) scan).paths,
      ∃ start ≤ position, path.head? = some start := by
  induction positions generalizing scan with
  | nil => contradiction
  | cons visitedPosition rest ih =>
      obtain ⟨hrest, increasing⟩ := List.pairwise_cons.1 increasing
      rcases tracks.visit first visitedPosition with
        ⟨path, ⟨slot, _, _, _, hfound⟩, visited, hpaths⟩ | ⟨hnone, visited, _⟩
      · have hkept : path ∈ (scan.visit (.ofTrace trace) steps.toArray rule first
            visitedPosition).paths := hpaths ▸ List.mem_cons_self
        refine ⟨path, visited.mem_paths_foldl_visit rest hkept, visitedPosition, ?_,
          head?_of_fromStart hfound⟩
        rcases List.mem_cons.1 hmem with rfl | hlater
        · exact Nat.le_refl _
        · exact Nat.le_of_lt (hrest position hlater)
      · rcases List.mem_cons.1 hmem with rfl | hlater
        · obtain ⟨path, hfinds⟩ := h scan tracks
          exact absurd hfinds (hnone path)
        · exact ih visited increasing hlater

/-- Where a chain starts under some rule, one without the repeat rule starts no later. -/
theorem exists_path_unrestricted {pattern : Pattern}
    (hpath : path ∈ (Course.ofTrace trace).find pattern rule) (hi : path.head? = some position) :
    ∃ other ∈ (Course.ofTrace trace).find pattern .unrestricted,
      ∃ start ≤ position, other.head? = some start := by
  obtain ⟨first, more, hsteps, hpath⟩ := Course.mem_find_iff.1 hpath
  have tracks (rule : RepeatRule) := Scan.tracks_empty trace (.direct first :: more) rule
  rcases (tracks rule).finds_of_mem_paths hpath with
    hnone | ⟨found, hmem, before, claimed, hbefore, slot, hslot, _, hkind, hfound⟩
  · contradiction
  · cases (head?_of_fromStart hfound).symm.trans hi
    obtain ⟨other, hother, hstart⟩ := (tracks .unrestricted).exists_mem_paths_le
      List.pairwise_lt_range hmem fun idle hidle => by
        obtain ⟨other, hother, _⟩ :=
          exists_found_unrestricted hbefore hidle (Finset.empty_subset claimed) hfound
        exact ⟨other, slot, hslot, mt hidle.claimed.1 (Finset.notMem_empty _), hkind, hother⟩
    exact ⟨other, Course.mem_find_iff.2 ⟨first, more, hsteps, hother⟩, hstart⟩

/-- The first chain of a pattern starts no later than any other. -/
theorem exists_first_le {course : Course} {pattern : Pattern} {path : List Nat} {i : Nat}
    (hpath : path ∈ course.find pattern rule) (hi : path.head? = some i) :
    ∃ first, (course.find pattern rule).head? = some first ∧ ∀ k ∈ first.head?, k ≤ i := by
  have hincreasing := find_increasing course pattern rule
  cases hpaths : course.find pattern rule with
  | nil =>
      rw [hpaths] at hpath
      contradiction
  | cons first rest =>
      rw [hpaths] at hpath hincreasing
      refine ⟨first, rfl, fun k hk => ?_⟩
      rcases List.mem_cons.1 hpath with rfl | hpath
      · exact Nat.le_of_eq (Option.some.inj (hk.symm.trans hi))
      · exact Nat.le_of_lt ((List.pairwise_cons.1 hincreasing).1 path hpath k i hk hi)

/-- A chain whose first position is no later starts no later. -/
theorem start_le_of_firsts_le (ordered : trace.Ordered) (label : String) {path other : List Nat}
    {i j : Nat} (hi : path.head? = some i) (hj : other.head? = some j) (hij : i ≤ j)
    (hlt : j < trace.order.size) :
    (chainOfPath trace label path).start ≤ (chainOfPath trace label other).start := by
  rcases Nat.eq_or_lt_of_le hij with rfl | hij
  · rw [start_chainOfPath label hi hlt, start_chainOfPath label hj hlt]
    exact Timestamp.le_refl _
  · exact start_le_start ordered label hi hj hij hlt

/-- Without the repeat rule a pattern has a chain wherever it has one with the rule. A hunt
that finds a chain under the rule finds a start of it otherwise, from the same position, with the
same events claimed and whatever failing states are remembered; and if a trace has any chain under
the rule, it has one otherwise, and the first one starts no later. -/
theorem found_of_noRepeat (built : trace.Built) (pattern : Pattern) (label : String) :
    (∀ steps claimed, ∀ strict free : Scan, ∀ position slot path,
      Step.ofTokens? (Course.ofTrace trace).kinds false pattern.tokens = some steps →
      strict.Tracks trace steps .noRepeat claimed →
      free.Tracks trace steps .unrestricted claimed →
      (Course.ofTrace trace).slots[position]? = some slot →
      (strict.hunt (.ofTrace trace) steps .noRepeat).fromStart position slot = .found path →
      ∃ fewer, (free.hunt (.ofTrace trace) steps .unrestricted).fromStart position slot =
        .found fewer ∧ fewer <+: path ∧ fewer.length ≤ path.length) ∧
    ∀ chain ∈ find trace pattern label .noRepeat,
      ∃ first, (find trace pattern label .unrestricted).head? = some first ∧
        trace.firstPosition first ≤ trace.firstPosition chain ∧ first.start ≤ chain.start := by
  constructor
  · intro steps claimed strict free position slot path _ hstrict hfree _ hfound
    obtain ⟨fewer, hfewer, hpre⟩ :=
      exists_found_unrestricted hstrict hfree (Finset.Subset.refl claimed) hfound
    exact ⟨fewer, hfewer, hpre, hpre.length_le⟩
  · intro chain hchain
    have ordered := built.ordered
    obtain ⟨path, hpath, rfl⟩ := List.mem_map.1 hchain
    have found := foundPath_of_mem_find hpath
    have hi := List.head?_eq_some_head found.isPrefix.1
    have hlt := found.lt_size (List.head_mem found.isPrefix.1)
    obtain ⟨other, hother, j, hj, hotherHead⟩ := exists_path_unrestricted hpath hi
    obtain ⟨first, hfirst, hle⟩ := exists_first_le hother hotherHead
    have hfirstFound := foundPath_of_mem_find (List.mem_of_mem_head? hfirst)
    have hk := List.head?_eq_some_head hfirstFound.isPrefix.1
    have hki := (hle _ hk).trans hj
    refine ⟨chainOfPath trace label first, ?_, ?_, ?_⟩
    · rw [find, findOn, List.head?_map, hfirst]
      rfl
    · rw [firstPosition_chainOfPath ordered label hk (Nat.lt_of_le_of_lt hki hlt),
        firstPosition_chainOfPath ordered label hi hlt]
      exact hki
    · exact start_le_of_firsts_le ordered label hk hi hki hlt

/-- Tokens have steps if events of the kinds of all named ones occur. -/
theorem exists_steps (h : ∀ name edge, .named name edge ∈ tokens →
    ∃ placed ∈ trace.placed, placed.1.kind = (name, edge.phase)) :
    ∃ steps, Step.ofTokens? (Course.ofTrace trace).kinds false tokens = some steps := by
  refine Option.isSome_iff_exists.1 (Step.isSome_ofTokens? (fun name edge hmem => ?_) false)
  obtain ⟨placed, hplaced, hkind⟩ := h name edge hmem
  exact Option.isSome_iff_ne_none.2 fun hnone => ne_of_get?_kinds_eq_none hnone hplaced hkind

theorem exists_steps_load : ∃ steps,
    Step.ofTokens? (Course.ofTrace .load).kinds false Pattern.load.tokens = some steps := by
  refine exists_steps fun name edge hmem => ?_
  obtain ⟨rfl, rfl⟩ | ⟨rfl, rfl⟩ : (name = "load" ∧ edge = .opening) ∨
      (name = "load" ∧ edge = .closing) := by
    simpa [Pattern.load] using hmem
  · decide +kernel
  · decide +kernel

theorem poll_ne_empty : "poll" ≠ "" := by decide

theorem done_ne_empty : "done" ≠ "" := by decide

/-- The events of a load that polls twice, each time before it is first done. -/
def polls : List Event :=
  [opening "load" Trace.load_ne_empty, opening "read" Trace.read_ne_empty,
    opening "send" Trace.send_ne_empty, opening "poll" poll_ne_empty,
    opening "read" Trace.read_ne_empty, opening "poll" poll_ne_empty,
    opening "done" done_ne_empty, opening "send" Trace.send_ne_empty,
    opening "done" done_ne_empty]
where
  opening (name : String) (h : name ≠ "") : Event := ⟨name, .spanBegin, .zero, {}, none, [], h⟩

/-- A load that reads, sends and is done. -/
def polling : Pattern :=
  ⟨[.named "load" .opening, .wildcard, .named "read" .opening, .wildcard, .named "send" .opening,
    .wildcard, .named "done" .opening]⟩

/-- Under the rule the two polls are in different wildcards only if the second read counts, and then
the load is done with the last event; otherwise it may be done before. -/
theorem found_of_noRepeat_polls :
    let trace := Trace.ofEvents polls
    let chain := chainOfPath trace "polls" [0, 1, 2, 3, 4, 5, 6, 7, 8]
    Pattern.compile "load+ * read+ * send+ * done+" = .ok polling ∧ trace.Built ∧
      (∃ steps slot fewer,
        Step.ofTokens? (Course.ofTrace trace).kinds false polling.tokens = some steps ∧
        (Course.ofTrace trace).slots[0]? = some slot ∧
        (Scan.hunt {} (.ofTrace trace) steps .noRepeat).fromStart 0 slot =
          .found [0, 1, 2, 3, 4, 5, 6, 7, 8] ∧
        (Scan.hunt {} (.ofTrace trace) steps .unrestricted).fromStart 0 slot = .found fewer ∧
        fewer <+: [0, 1, 2, 3, 4, 5, 6, 7, 8] ∧ fewer.length ≤ 9) ∧
      find trace polling "polls" .noRepeat = [chain] ∧
      ∃ first, (find trace polling "polls" .unrestricted).head? = some first ∧
        trace.firstPosition first ≤ trace.firstPosition chain ∧ first.start ≤ chain.start := by
  intro trace chain
  have hcompile : Pattern.compile "load+ * read+ * send+ * done+" = .ok polling := rfl
  have separated := Pattern.separated_of_compile hcompile
  have built : trace.Built := Trace.built_ofEvents polls
  obtain ⟨hhunts, hscan⟩ := found_of_noRepeat built polling "polls"
  have hoccurs : ∀ name ∈ ["load", "read", "send", "done"],
      ∃ placed ∈ trace.placed, placed.1.kind = (name, Edge.opening.phase) := by
    decide +kernel
  obtain ⟨steps, hsteps⟩ : ∃ steps,
      Step.ofTokens? (Course.ofTrace trace).kinds false polling.tokens = some steps := by
    refine exists_steps fun name edge hmem => ?_
    obtain ⟨hname, rfl⟩ : name ∈ ["load", "read", "send", "done"] ∧ edge = .opening := by
      simp only [polling, List.mem_cons, Token.named.injEq] at hmem
      grind
    exact hoccurs name hname
  have hsize : 0 < (Course.ofTrace trace).slots.size := by
    rw [Course.size_slots_ofTrace]
    decide +kernel
  obtain ⟨event, stands, hplaced⟩ := Course.slot_stands hsize
  have hhead : trace.placed.head? = some (event, 0) := congrArg List.head? hplaced
  have hshortest : (trace.placed.head?.bind fun start =>
      shortest? .noRepeat polling.tokens.tail
        (beforeClaimed ∅ ((View.start start.1).walk (trace.placed.drop 1)))).map
          (·.map Prod.snd) = some [1, 2, 3, 4, 5, 6, 7, 8] := by
    decide +kernel
  rw [hhead] at hshortest
  obtain ⟨taken, htaken, hpath⟩ := Option.map_eq_some_iff.1 hshortest
  have hslot := Array.getElem?_eq_getElem hsize
  have fit : trace.KindsFit := Trace.kindsFit_of_length_le (by decide +kernel)
  have hfound := (found_iff fit separated.tail hsteps (Scan.tracks_empty trace steps .noRepeat)
    stands).2 ⟨taken, shortest?_eq_some_iff.1 htaken, congrArg (0 :: ·) hpath⟩
  obtain ⟨fewer, hfewer, hpre, hlength⟩ := hhunts steps ∅ {} {} 0 _ _ hsteps
    (Scan.tracks_empty trace steps .noRepeat) (Scan.tracks_empty trace steps .unrestricted)
    hslot hfound
  have inTime : Trace.EventsInTime polls := by
    unfold Trace.EventsInTime polls
    decide
  have hchains : find trace polling "polls" .noRepeat = [chain] :=
    find_ofEvents rfl separated inTime (by decide) "polls" .noRepeat
  exact ⟨hcompile, built, ⟨steps, _, fewer, hsteps, hslot, hfound, hfewer, hpre, hlength⟩, hchains,
    hscan chain (hchains ▸ List.mem_singleton_self chain)⟩

end EventChains.Matching
