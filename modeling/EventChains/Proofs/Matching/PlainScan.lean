import EventChains.Proofs.Matching.PlainSearch
import EventChains.Proofs.Matching.PlainWalk
import EventChains.Proofs.Matching.Scan
import EventChains.Proofs.Trace.Built

/-!
# A scan is plain matching

As long as the numbers of kinds tell them apart, a visit finds a chain where plain matching does
(`Scan.Tracks.finds_iff`). So a whole scan finds the chains of plain matching (`paths_eq_scan`), and
`find_eq_paths` says that this holds for the patterns with no two wildcards side by side, also for
those that name an event the trace does not have.
-/

namespace EventChains.Matching

variable {trace : Trace} {steps : List Step} {rule : RepeatRule} {claimed : Finset Nat}
  {scan : Scan} {position : Nat} {slot : Slot} {event : Event} {path : List Nat}

/-- The hunts of a scan are through its trace. -/
theorem Scan.Tracks.huntsThrough (tracks : scan.Tracks trace steps rule claimed) :
    HuntsThrough (scan.hunt (.ofTrace trace) steps rule) trace claimed :=
  ⟨rfl, tracks.claimed⟩

section Start

variable {n : UInt32} {more : List Step} {name : String} {edge : Edge} {following : List Token}
  {later : List Placed}

/-- The first event of a chain leaves the tokens after the first one. -/
theorem follows_start {hunt : Hunt} (hsteps : hunt.steps.toList = .direct n :: more)
    (hfollowing : Step.ofTokens? (Course.ofTrace trace).kinds false following = some more)
    (stands : (Course.ofTrace trace).Stands slot event) :
    Follows hunt trace (State.start position slot) following ∅ (View.start event) where
  shown := Shows.start position stands
  step_le := by
    show 1 ≤ hunt.steps.size
    rw [← Array.length_toList, hsteps]
    exact Nat.le_add_left 1 _
  steps := by
    rw [hsteps, hfollowing]
    rfl
  run := by
    split
    · exact Codes.empty
    · rfl

/-- A hunt of a scan finds what completes the tokens after the first one. -/
theorem Scan.Tracks.fromStart_eq_found_iff (fit : trace.KindsFit)
    (tracks : scan.Tracks trace (.direct n :: more) rule claimed)
    (separated : Pattern.Separated following)
    (hfollowing : Step.ofTokens? (Course.ofTrace trace).kinds false following = some more)
    (stands : (Course.ofTrace trace).Stands slot event) :
    (scan.hunt (.ofTrace trace) (.direct n :: more) rule).fromStart position slot = .found path ↔
      (Plain.complete rule claimed following ∅ (View.start event)
        (trace.placed.drop (position + 1))).map (position :: ·) = some path := by
  have follows : Follows (scan.hunt (.ofTrace trace) (.direct n :: more) rule) trace
      (State.start position slot) following ∅ (View.start event) :=
    follows_start rfl hfollowing stands
  have hcomplete := search_eq_complete fit tracks.huntsThrough separated follows
  rw [Hunt.fromStart_eq_found_iff tracks.hunt_failed, Hunt.search_eq_map]
  exact Eq.congr_left (congrArg _ hcomplete)

/-- A visit finds a chain where plain matching does. -/
theorem Scan.Tracks.finds_iff (fit : trace.KindsFit)
    (tracks : scan.Tracks trace (.direct n :: more) rule claimed)
    (separated : Pattern.Separated following)
    (hkind : (Course.ofTrace trace).kinds.get? (name, edge.phase) = some n)
    (hfollowing : Step.ofTokens? (Course.ofTrace trace).kinds false following = some more)
    (hplaced : trace.placed.drop position = (event, position) :: later) (path : List Nat) :
    scan.Finds (.ofTrace trace) (.direct n :: more) rule n position path ↔
      Plain.chainAt? rule claimed (.named name edge :: following) (event, position) later =
        some path := by
  have hlt : position < (Course.ofTrace trace).slots.size := by
    rw [Course.size_slots_ofTrace]
    by_contra hge
    rw [List.drop_eq_nil_of_le (by omega)] at hplaced
    contradiction
  obtain ⟨_, stands, hdrop⟩ := Course.slot_stands hlt
  rw [hplaced] at hdrop
  cases hdrop
  have hslot := Array.getElem?_eq_getElem hlt
  have hstart : position ∉ scan.claimed ∧ (Course.ofTrace trace).slots[position].kind = n ↔
      position ∉ claimed ∧ event.kind = (name, edge.phase) :=
    and_congr (not_congr tracks.claimed) (kind_eq_iff fit hkind stands)
  rw [Plain.chainAt?]
  dsimp only
  split
  · rename_i h
    refine Iff.trans ?_ (tracks.fromStart_eq_found_iff fit separated hfollowing stands)
    constructor
    · rintro ⟨slot, hother, _, _, hpath⟩
      cases hslot.symm.trans hother
      exact hpath
    · intro hpath
      exact ⟨_, hslot, (hstart.2 h).1, (hstart.2 h).2, hpath⟩
  · rename_i h
    constructor
    · rintro ⟨slot, hother, hfree, hfirst, _⟩
      cases hslot.symm.trans hother
      exact absurd (hstart.1 ⟨hfree, hfirst⟩) h
    · intro hpath
      contradiction

/-- The visits from a position on find the chains that plain matching finds there. -/
theorem Scan.paths_foldl_visit (fit : trace.KindsFit) (separated : Pattern.Separated following)
    (hkind : (Course.ofTrace trace).kinds.get? (name, edge.phase) = some n)
    (hfollowing : Step.ofTokens? (Course.ofTrace trace).kinds false following = some more)
    (count position : Nat) (hcount : position + count = trace.placed.length)
    (tracks : scan.Tracks trace (.direct n :: more) rule claimed) :
    ((List.range' position count).foldl
      (Scan.visit (.ofTrace trace) (Step.direct n :: more).toArray rule n) scan).paths =
        (Plain.scan rule (.named name edge :: following) claimed
          (trace.placed.drop position)).reverse ++ scan.paths := by
  -- what the scan has claimed and remembers so far is carried along by `tracks`
  induction count generalizing position scan claimed with
  | zero =>
      rw [List.drop_eq_nil_of_le (by omega)]
      rfl
  | succ count ih =>
      have hlt : position < (Course.ofTrace trace).slots.size := by
        rw [Course.size_slots_ofTrace]
        omega
      obtain ⟨event, _, hplaced⟩ := Course.slot_stands hlt
      have hfinds := tracks.finds_iff fit separated hkind hfollowing hplaced
      rw [List.range'_succ, List.foldl_cons, hplaced, Plain.scan]
      rcases tracks.visit n position with ⟨path, hfound, visited, hpaths⟩ | ⟨hnone, visited, hpaths⟩
      · rw [(hfinds path).1 hfound, ih _ (by omega) visited, hpaths]
        simp
      · rw [Option.eq_none_iff_forall_ne_some.2 fun path h => hnone path ((hfinds path).2 h),
          ih _ (by omega) visited, hpaths]

end Start

/-- After a wildcard the first step is no direct one, so no chain can start. -/
theorem paths_of_afterWildcard {course : Course} {tokens : List Token}
    (h : Step.ofTokens? course.kinds true tokens = some steps) : course.paths steps rule = [] := by
  induction tokens with
  | nil =>
      cases Option.some.inj h
      rfl
  | cons token following ih =>
      cases token with
      | wildcard => exact ih h
      | named name edge =>
          obtain ⟨n, more, _, _, rfl⟩ := Step.ofTokens?_named h
          rfl

/-- A scan of the steps of some tokens finds the chains of plain matching. -/
theorem paths_eq_scan (fit : trace.KindsFit) {tokens : List Token}
    (separated : Pattern.Separated tokens)
    (hsteps : Step.ofTokens? (Course.ofTrace trace).kinds false tokens = some steps) :
    (Course.ofTrace trace).paths steps rule = Plain.scan rule tokens ∅ trace.placed := by
  cases tokens with
  | nil =>
      cases Option.some.inj hsteps
      rw [Plain.scan_eq_nil fun _ _ _ => rfl]
      rfl
  | cons token following =>
      cases token with
      | wildcard =>
          rw [Plain.scan_eq_nil fun _ _ _ => rfl]
          exact paths_of_afterWildcard hsteps
      | named name edge =>
          obtain ⟨n, more, hkind, hmore, rfl⟩ := Step.ofTokens?_named hsteps
          have hfold := Scan.paths_foldl_visit fit separated.tail hkind hmore trace.placed.length 0
            (Nat.zero_add _) (Scan.tracks_empty trace (.direct n :: more) rule)
          show (Scan.paths ((List.range (Course.ofTrace trace).slots.size).foldl
            (Scan.visit (.ofTrace trace) (Step.direct n :: more).toArray rule n) {})).reverse = _
          rw [Course.size_slots_ofTrace, List.range_eq_range']
          refine (congrArg List.reverse hfold).trans ?_
          simp

/-! ## Tokens without an event -/

/-- Tokens have steps if the kinds of all named ones have numbers. -/
theorem Step.isSome_ofTokens? {kinds : Numbering Kind} {tokens : List Token}
    (h : ∀ name edge, .named name edge ∈ tokens → (kinds.get? (name, edge.phase)).isSome)
    (afterWildcard : Bool) : (ofTokens? kinds afterWildcard tokens).isSome := by
  induction tokens generalizing afterWildcard with
  | nil => rfl
  | cons token following ih =>
      have hfollowing := ih fun name edge hmem => h name edge (List.mem_cons_of_mem _ hmem)
      cases token with
      | wildcard => exact hfollowing true
      | named name edge =>
          obtain ⟨kind, hkind⟩ := Option.isSome_iff_exists.1 (h name edge List.mem_cons_self)
          obtain ⟨more, hmore⟩ := Option.isSome_iff_exists.1 (hfollowing false)
          rw [ofTokens?, hkind, hmore]
          rfl

/-- A kind without a number does not occur in the trace. -/
theorem ne_of_get?_kinds_eq_none {kind : Kind}
    (h : (Course.ofTrace trace).kinds.get? kind = none) {placed : Placed}
    (hplaced : placed ∈ trace.placed) : placed.1.kind ≠ kind := by
  rintro rfl
  have hevent : placed.1 ∈ trace.events := List.fst_mem_of_mem_zipIdx hplaced
  have hsome := Course.isSome_get?_kinds_iff.2 ⟨placed.1, hevent, rfl⟩
  rw [h] at hsome
  contradiction

/-- Plain matching finds the chains of a pattern without two wildcards side by side. -/
theorem find_eq_paths (fit : trace.KindsFit) {pattern : Pattern}
    (separated : Pattern.Separated pattern.tokens) (rule : RepeatRule) :
    (Course.ofTrace trace).find pattern rule = Plain.paths trace pattern rule := by
  unfold Course.find Plain.paths
  split
  · rename_i steps hsteps
    exact paths_eq_scan fit separated hsteps
  · rename_i hsteps
    -- without steps some kind has no number, so it does not occur and plain matching finds nothing
    obtain ⟨name, edge, hmem, hkind⟩ : ∃ name edge, .named name edge ∈ pattern.tokens ∧
        (Course.ofTrace trace).kinds.get? (name, edge.phase) = none := by
      by_contra hall
      refine Option.isSome_iff_ne_none.1 (Step.isSome_ofTokens? (fun name edge hmem => ?_) false)
        hsteps
      refine Option.isSome_iff_ne_none.2 fun hkind => hall ⟨name, edge, hmem, hkind⟩
    exact (Plain.scan_of_absent hmem fun _ => ne_of_get?_kinds_eq_none hkind).symm

/-- The chains of a compiled pattern are those of plain matching, in a trace whose kinds fit into
numbers of 32 bits. -/
theorem find_eq_plain {source : String} {pattern : Pattern}
    (h : Pattern.compile source = .ok pattern) (fit : trace.KindsFit) (label : String)
    (rule : RepeatRule) :
    find trace pattern label rule =
      (Plain.paths trace pattern rule).map (chainOfPath trace label) :=
  congrArg (List.map _) (find_eq_paths fit (Pattern.separated_of_compile h) rule)

theorem kindsFit_load : Trace.load.KindsFit :=
  Trace.kindsFit_of_length_le (by decide +kernel)

/-- The chains of loads are those of plain matching. -/
theorem find_eq_plain_load :
    Pattern.compile "load+ * load-" = .ok .load ∧ Trace.load.KindsFit ∧
      find .load .load "loads" .noRepeat =
        (Plain.paths .load .load .noRepeat).map (chainOfPath .load "loads") :=
  ⟨Pattern.compile_load, kindsFit_load,
    find_eq_plain Pattern.compile_load kindsFit_load "loads" .noRepeat⟩

end EventChains.Matching
