import EventChains.Proofs.Matching.Chains
import EventChains.Proofs.Matching.Path

/-!
# The chains of a pattern cover a trace

The chains that are found for a pattern do not overlap, and no further chain fits beside them
(`maximalMatches`). A hunt that fails has only been stopped by the chains before it, but the walk is
stopped by the first claimed event whatever chain has claimed it, so more chains can only stop it
earlier.
-/

namespace EventChains.Matching

/-- A maximal set of matches of some tokens in trace order, none of which overlap. -/
structure MaximalMatches (trace : Trace) (rule : RepeatRule) (tokens : List Token)
    (paths : List (List Nat)) : Prop where
  /-- Each path is a start of the walk from its first position, and satisfies the tokens. -/
  isMatch : ∀ path ∈ paths, ∃ position taken, path.head? = some position ∧
    taken <+: trace.walk position ∧ Satisfies rule tokens taken ∧ taken.map Prod.snd = path
  /-- The positions of each path increase. -/
  inOrder : ∀ path ∈ paths, path.Pairwise (· < ·)
  /-- The first positions of the paths increase. -/
  firstsInOrder : paths.Pairwise fun a b => ∀ i j, a.head? = some i → b.head? = some j → i < j
  disjoint : paths.Pairwise List.Disjoint
  /-- No start of a walk that avoids all paths satisfies the tokens. -/
  maximal : ∀ position taken, taken <+: trace.walk position →
    (∀ placed ∈ taken, ∀ path ∈ paths, placed.2 ∉ path) → ¬ Satisfies rule tokens taken

variable {trace : Trace} {pattern : Pattern} {rule : RepeatRule} {path other : List Nat}
  {name : String} {edge : Edge} {following : List Token}

/-- A path of plain matching is a match on the walk from its first position, and it avoids the
paths that start earlier. -/
theorem match_of_mem_paths (htokens : pattern.tokens = .named name edge :: following)
    (hpath : path ∈ Plain.paths trace pattern rule) :
    ∃ position taken, path.head? = some position ∧ taken <+: trace.walk position ∧
      Satisfies rule pattern.tokens taken ∧ taken.map Prod.snd = path ∧
      ∀ i ∈ path, i ∉ claimedBefore (Plain.paths trace pattern rule) position := by
  obtain ⟨start, _, hhead⟩ := Plain.head?_of_mem_scan hpath
  obtain ⟨taken, shortest, rfl⟩ := (mem_paths_iff htokens start.2).1 ⟨hpath, hhead⟩
  refine ⟨start.2, taken, hhead, shortest.isPrefix.trans (beforeClaimed_isPrefix _ _),
    shortest.satisfies, rfl, fun i hi => ?_⟩
  obtain ⟨placed, hplaced, rfl⟩ := List.mem_map.1 hi
  exact not_mem_of_mem_beforeClaimed (shortest.isPrefix.subset hplaced)

/-- A start of a walk that avoids all paths of plain matching does not satisfy the tokens. -/
theorem not_satisfies_of_avoids (htokens : pattern.tokens = .named name edge :: following)
    {position : Nat} {taken : List Placed} (hpre : taken <+: trace.walk position)
    (hfree : ∀ placed ∈ taken, ∀ path ∈ Plain.paths trace pattern rule, placed.2 ∉ path) :
    ¬ Satisfies rule pattern.tokens taken := by
  intro hsatisfies
  -- the chains before the position are among all chains, so the hunt there could not fail
  have hbefore : taken <+: beforeClaimed
      (claimedBefore (Plain.paths trace pattern rule) position) (trace.walk position) := by
    refine prefix_beforeClaimed hpre fun placed hplaced hclaimed => ?_
    obtain ⟨path, hpath, _, hmem⟩ := mem_claimedBefore.1 hclaimed
    exact hfree placed hplaced path hpath hmem
  obtain ⟨found, hfound⟩ := Option.isSome_iff_exists.1 (isSome_shortest? hsatisfies hbefore)
  have shortest := shortest?_eq_some_iff.1 hfound
  -- what it finds starts with the first event of `taken`, which no chain has
  have hleast : found <+: taken := shortest.least taken hbefore hsatisfies
  obtain ⟨hpath, hhead⟩ := (mem_paths_iff htokens position).2 ⟨found, shortest, rfl⟩
  cases found with
  | nil => contradiction
  | cons first rest =>
      exact hfree first (hleast.subset List.mem_cons_self) _ hpath List.mem_cons_self

/-- The chains of a compiled pattern are a maximal set of matches. -/
theorem maximalMatches {source : String} (h : Pattern.compile source = .ok pattern)
    (fit : trace.KindsFit) (rule : RepeatRule) :
    MaximalMatches trace rule pattern.tokens ((Course.ofTrace trace).find pattern rule) := by
  obtain ⟨name, edge, following, htokens⟩ := Pattern.tokens_of_compile h
  rw [find_eq_paths fit (Pattern.separated_of_compile h) rule]
  have hfirsts : (Plain.paths trace pattern rule).Pairwise fun a b =>
      ∀ i j, a.head? = some i → b.head? = some j → i < j :=
    Plain.scan_increasing trace.placed_increasing
  refine ⟨fun path hpath => ?_, fun path hpath => ?_, hfirsts, ?_, ?_⟩
  · obtain ⟨position, taken, hhead, hpre, hsatisfies, htaken, _⟩ :=
      match_of_mem_paths htokens hpath
    exact ⟨position, taken, hhead, hpre, hsatisfies, htaken⟩
  · obtain ⟨position, taken, _, hpre, _, rfl, _⟩ := match_of_mem_paths htokens hpath
    exact List.pairwise_map.2 ((trace.walk_increasing position).sublist hpre.sublist)
  · refine List.Pairwise.imp_of_mem ?_ hfirsts
    intro earlier later hearlier hlater hij i hi hi'
    obtain ⟨first, _, hfirst, _⟩ := match_of_mem_paths htokens hearlier
    obtain ⟨position, _, hposition, _, _, _, hfree⟩ := match_of_mem_paths htokens hlater
    exact hfree i hi' (mem_claimedBefore.2
      ⟨earlier, hearlier, ⟨first, hfirst, hij first position hfirst hposition⟩, hi⟩)
  · intro position taken hpre hfree
    exact not_satisfies_of_avoids htokens hpre hfree

/-- The chains of a compiled pattern in a trace that operations have built are a maximal set of
matches that do not overlap, in trace order. The events of a chain are those at the positions of its
match. The kinds of the trace fit into numbers of 32 bits. -/
theorem find_covers {source : String} (h : Pattern.compile source = .ok pattern)
    (built : trace.Built) (fit : trace.KindsFit) (label : String) (rule : RepeatRule) :
    let paths := (Course.ofTrace trace).find pattern rule
    let chains := find trace pattern label rule
    MaximalMatches trace rule pattern.tokens paths ∧
      chains = paths.map (chainOfPath trace label) ∧
      (∀ path ∈ paths,
        (chainOfPath trace label path).events.map some = path.map (trace.ids[·]?)) ∧
      (∀ chain ∈ chains, chain.events.Sublist trace.ids ∧ chain.start ≤ chain.finish) ∧
      chains.Pairwise fun a b => a.events.Disjoint b.events ∧ a.start ≤ b.start := by
  intro paths chains
  have ordered := built.ordered
  have found : MaximalMatches trace rule pattern.tokens paths := maximalMatches h fit rule
  have hsublist : ∀ path ∈ paths, path.Sublist (List.range trace.order.size) := by
    intro path hpath
    obtain ⟨position, taken, _, hpre, _, rfl⟩ := found.isMatch path hpath
    exact positions_sublist hpre
  refine ⟨found, rfl, fun path hpath => events_of_mem_find label hpath, ?_, ?_⟩
  · intro chain hchain
    obtain ⟨path, hpath, rfl⟩ := List.mem_map.1 hchain
    exact ⟨events_sublist label (hsublist path hpath),
      start_le_finish ordered label (hsublist path hpath)⟩
  · have hpairs := found.disjoint.and found.firstsInOrder
    refine List.pairwise_map.2 (List.Pairwise.imp_of_mem ?_ hpairs)
    rintro a b ha hb ⟨hdisjoint, hlt⟩
    obtain ⟨i, _, hi, _⟩ := found.isMatch a ha
    obtain ⟨j, _, hj, _⟩ := found.isMatch b hb
    have hsize : j < trace.order.size :=
      List.mem_range.1 ((hsublist b hb).subset (List.mem_of_mem_head? hj))
    exact ⟨disjoint_events ordered label hdisjoint,
      start_le_start ordered label hi hj (hlt i j hi hj) hsize⟩

/-- Loads do not overlap, and no load is left out. -/
theorem find_covers_load :
    Pattern.compile "load+ * load-" = .ok .load ∧ Trace.load.Built ∧ Trace.load.KindsFit ∧
      let paths := (Course.ofTrace .load).find .load .noRepeat
      let chains := find .load .load "loads" .noRepeat
      MaximalMatches .load .noRepeat Pattern.load.tokens paths ∧
        chains = paths.map (chainOfPath .load "loads") ∧
        (∀ path ∈ paths,
          (chainOfPath .load "loads" path).events.map some = path.map (Trace.load.ids[·]?)) ∧
        (∀ chain ∈ chains, chain.events.Sublist Trace.load.ids ∧ chain.start ≤ chain.finish) ∧
        chains.Pairwise fun a b => a.events.Disjoint b.events ∧ a.start ≤ b.start :=
  ⟨Pattern.compile_load, Trace.built_load, kindsFit_load,
    find_covers Pattern.compile_load Trace.built_load kindsFit_load "loads" .noRepeat⟩

end EventChains.Matching
