import EventChains.Proofs.Findings.Summary
import EventChains.Proofs.Matching.Parts
import Mathlib

/-!
# The first search

A pattern finds chains in trace order, and findings sort them by start time. Both orders go by time
and differ only in the two zeros: in trace order they tie, and findings put the negative one first.
So new findings hold the chains of their first search as it has found them unless one that starts at
the negative zero comes after one that does not (`chains_first_search`).
-/

namespace EventChains

open Matching

namespace Timestamp

/-- The negative zero. -/
def negativeZero : Timestamp :=
  ⟨-0, by decide, by decide⟩

/-- Nothing is earlier than the negative zero. -/
theorem le_of_isNegativeZero {t : Timestamp} (h : t.isNegativeZero = true) (other : Timestamp) :
    t ≤ other := by
  have hbits : t.val = Float.ofBits 0x8000000000000000 := by
    rw [← Float.ofBits_toBits t.val, beq_iff_eq.1 h]
  have hrank : t.rank = none := by
    rw [rank, hbits]
    rfl
  rw [le_iff_rank_le, hrank]
  trivial

end Timestamp

namespace Findings

variable {trace : Trace}

/-- The chains of a pattern are in the order of their start times. -/
theorem starts_inTime (ordered : trace.Ordered) (pattern : Pattern) (label : String)
    (rule : RepeatRule) :
    (find trace pattern label rule).Pairwise fun a b => a.start ≤ b.start := by
  refine List.pairwise_map.2 (List.Pairwise.imp_of_mem ?_ (find_increasing _ pattern rule))
  intro a b ha hb hlt
  have hfoundA := foundPath_of_mem_find ha
  have hfoundB := foundPath_of_mem_find hb
  have hi := List.head?_eq_some_head hfoundA.isPrefix.1
  have hj := List.head?_eq_some_head hfoundB.isPrefix.1
  exact start_le_start ordered label hi hj (hlt _ _ hi hj) (hfoundB.lt_size (List.head_mem _))

/-- Chains of different spans are only sorted by their summary. -/
theorem summary_of_distinct {found : List Chain} (distinct : (found.map Chain.span?).Nodup) :
    summary found = found.mergeSort inOrder := by
  have hlatest : found.map (latest found) = found :=
    (List.map_congr_left fun chain hchain => latest_of_mem distinct hchain).trans (List.map_id _)
  rw [summary, merged, eraseDupsBy_of_distinct distinct, hlatest]

/-- Sorting leaves chains as they are exactly if they are sorted. -/
theorem mergeSort_eq_self_iff (chains : List Chain) :
    chains.mergeSort inOrder = chains ↔ chains.Pairwise fun a b => inOrder a b = true := by
  constructor
  · intro h
    rw [← h]
    exact List.pairwise_mergeSort inOrder_trans inOrder_total chains
  · exact List.mergeSort_of_pairwise

/-- Chains in the order of their start times are sorted exactly if none that starts at the negative
zero comes after one that does not. -/
theorem pairwise_inOrder_iff {chains : List Chain}
    (inTime : chains.Pairwise fun a b => a.start ≤ b.start) :
    chains.Pairwise (fun a b => inOrder a b = true) ↔
      chains.Pairwise fun a b => b.start.isNegativeZero = true → a.start.isNegativeZero = true := by
  constructor
  · intro sorted
    refine sorted.imp fun {a b} h hzero => ?_
    exact (inOrder_iff.1 h).2 (Timestamp.le_of_isNegativeZero hzero a.start) hzero
  · intro zeros
    exact (inTime.and zeros).imp fun {a b} h => inOrder_iff.2 ⟨h.1, fun _ => h.2⟩

/-- New findings sort the chains of their first search. -/
theorem chains_search_start (ordered : trace.Ordered) (pattern : Pattern) (label : String)
    (rule : RepeatRule) :
    ((start trace rule).search pattern label).1.chains =
      (find trace pattern label rule).mergeSort inOrder := by
  have summarises : Summarises ((start trace rule).search pattern label).1
      (find trace pattern label rule) :=
    (Searched.search pattern label .start).summarises ordered
  rw [summarises.chains_eq]
  exact summary_of_distinct (spanned_find ordered pattern label rule).distinct

/-- New findings hold the chains of their first search, sorted by start time. They hold them in the
order in which they were found exactly if no chain that starts at the negative zero was found after
one that does not. -/
theorem chains_first_search (built : trace.Built) (pattern : Pattern) (label : String)
    (rule : RepeatRule) :
    let found := find trace pattern label rule
    let searched := (start trace rule).search pattern label
    searched.2 = found ∧ searched.1.chains = found.mergeSort inOrder ∧
      (searched.1.chains = found ↔ found.Pairwise fun earlier later =>
        later.start.isNegativeZero = true → earlier.start.isNegativeZero = true) := by
  intro found searched
  have ordered := built.ordered
  have hchains : searched.1.chains = found.mergeSort inOrder :=
    chains_search_start ordered pattern label rule
  refine ⟨rfl, hchains, ?_⟩
  rw [hchains, mergeSort_eq_self_iff,
    pairwise_inOrder_iff (starts_inTime ordered pattern label rule)]

/-! ## Loads that begin at the two zeros -/

open Trace (loadsAt built_loadsAt)

/-- The begin of a load. -/
def loadBegin : Pattern :=
  ⟨[.named "load" .opening]⟩

theorem compile_loadBegin : Pattern.compile "load+" = .ok loadBegin :=
  rfl

/-- Two loads are found one after the other. -/
theorem find_loadsAt {times : List Timestamp} (fit : (loadsAt times).KindsFit)
    (h : (occurrences .noRepeat loadBegin.tokens ∅ (loadsAt times).placed).map (·.map Prod.snd) =
      [[0], [1]]) :
    find (loadsAt times) loadBegin "loads" .noRepeat =
      [chainOfPath (loadsAt times) "loads" [0], chainOfPath (loadsAt times) "loads" [1]] := by
  have htokens : loadBegin.tokens = .named "load" .opening :: [] := rfl
  rw [find_eq_map_occurrences htokens (Pattern.separated_of_compile compile_loadBegin) fit]
  show (occurrences .noRepeat loadBegin.tokens ∅ (loadsAt times).placed).map
    (chainOfPath (loadsAt times) "loads" ∘ List.map Prod.snd) = _
  rw [← List.map_map, h]
  rfl

/-- A load at the negative zero and then one at zero are held as they are found. -/
theorem chains_first_search_zeros :
    let trace := loadsAt [.negativeZero, .zero]
    trace.Built ∧ Pattern.compile "load+" = .ok loadBegin ∧
      ((start trace .noRepeat).search loadBegin "loads").1.chains =
        find trace loadBegin "loads" .noRepeat ∧
      (find trace loadBegin "loads" .noRepeat).map (·.events) = [[0], [1]] := by
  intro trace
  have built : trace.Built := built_loadsAt _
  have fit : trace.KindsFit := Trace.kindsFit_of_length_le (by decide +kernel)
  have hfind := find_loadsAt fit (by decide +kernel)
  refine ⟨built, compile_loadBegin, ?_, ?_⟩
  · refine (chains_first_search built loadBegin "loads" .noRepeat).2.2.2 ?_
    rw [hfind]
    decide +kernel
  · rw [hfind]
    decide +kernel

/-- A load at zero is found before one at the negative zero, and is held after it. -/
theorem chains_search_start_ne_find :
    let trace := loadsAt [.zero, .negativeZero]
    let found := find trace loadBegin "loads" .noRepeat
    let chains := ((start trace .noRepeat).search loadBegin "loads").1.chains
    trace.Built ∧ Pattern.compile "load+" = .ok loadBegin ∧
      found.map (·.events) = [[0], [1]] ∧ chains.map (·.events) = [[1], [0]] ∧ chains ≠ found := by
  intro trace found chains
  have built : trace.Built := built_loadsAt _
  have fit : trace.KindsFit := Trace.kindsFit_of_length_le (by decide +kernel)
  have hfound : found = [chainOfPath trace "loads" [0], chainOfPath trace "loads" [1]] :=
    find_loadsAt fit (by decide +kernel)
  have hchains : chains = found.mergeSort inOrder :=
    chains_search_start built.ordered loadBegin "loads" .noRepeat
  have hevents : chains.map (·.events) = [[1], [0]] := by
    rw [hchains, hfound, mergeSort_pair_of_not (by decide +kernel)]
    decide +kernel
  have hfoundEvents : found.map (·.events) = [[0], [1]] := by
    rw [hfound]
    decide +kernel
  refine ⟨built, compile_loadBegin, hfoundEvents, hevents, fun heq => ?_⟩
  rw [heq, hfoundEvents] at hevents
  exact absurd hevents (by decide)

end Findings

end EventChains
