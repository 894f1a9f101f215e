import Mathlib.Data.List.Basic

/-!
# Stable sorting

Sorting by a total preorder leaves elements that tie in the order in which they stand
(`filter_ties_mergeSort`), and no two sorted lists have all their ties in the same order
(`eq_of_filter_ties`). So it does not matter whether a part of a list has been sorted before:
`mergeSort_mergeSort_append`.
-/

namespace EventChains

variable {α : Type} {le : α → α → Bool} {first second : List α}

/-- Whether two elements may stand in either order. -/
def ties (le : α → α → Bool) (a b : α) : Bool :=
  le a b && le b a

/-- Sorting leaves ties as they stand. -/
theorem filter_ties_mergeSort (trans : ∀ a b c, le a b = true → le b c = true → le a c = true)
    (total : ∀ a b, (le a b || le b a) = true) (items : List α) (a : α) :
    (items.mergeSort le).filter (ties le a) = items.filter (ties le a) := by
  have hsorted : (items.filter (ties le a)).Pairwise fun b c => le b c = true := by
    refine List.pairwise_of_forall_mem_list fun b hb c hc => ?_
    have hb : le a b = true ∧ le b a = true := by simpa [ties] using List.of_mem_filter hb
    have hc : le a c = true ∧ le c a = true := by simpa [ties] using List.of_mem_filter hc
    exact trans b a c hb.2 hc.1
  -- the elements that tie with `a` are sorted as they stand, so sorting keeps them
  have hsublist : (items.filter (ties le a)).Sublist (items.mergeSort le) :=
    List.sublist_mergeSort trans total hsorted List.filter_sublist
  have hfilter := hsublist.filter (ties le a)
  rw [List.filter_filter, List.filter_congr fun b _ => Bool.and_self _] at hfilter
  have hlength := ((List.mergeSort_perm items le).filter (ties le a)).length_eq
  exact (hfilter.eq_of_length hlength.symm).symm

/-- The first element of a sorted list stands well before all elements. -/
theorem le_of_mem_sorted (total : ∀ a b, (le a b || le b a) = true) {a b : α} {rest : List α}
    (h : (a :: rest).Pairwise fun a b => le a b = true) (hb : b ∈ a :: rest) : le a b = true := by
  rcases List.mem_cons.1 hb with rfl | hb
  · simpa using total b b
  · exact (List.pairwise_cons.1 h).1 b hb

/-- Lists with the same ties have the same elements. -/
theorem mem_of_filter_ties (total : ∀ a b, (le a b || le b a) = true)
    (h : ∀ a, first.filter (ties le a) = second.filter (ties le a)) {a : α} (ha : a ∈ first) :
    a ∈ second := by
  have hmem : a ∈ first.filter (ties le a) :=
    List.mem_filter.2 ⟨ha, by simpa [ties] using total a a⟩
  rw [h a] at hmem
  exact List.mem_of_mem_filter hmem

/-- A sorted list is determined by the order of its ties. -/
theorem eq_of_filter_ties (total : ∀ a b, (le a b || le b a) = true)
    (hfirst : first.Pairwise fun a b => le a b = true)
    (hsecond : second.Pairwise fun a b => le a b = true)
    (h : ∀ a, first.filter (ties le a) = second.filter (ties le a)) : first = second := by
  induction first generalizing second with
  | nil =>
      refine (List.eq_nil_iff_forall_not_mem.2 fun b hb => ?_).symm
      exact absurd (mem_of_filter_ties total (fun a => (h a).symm) hb) List.not_mem_nil
  | cons a first ih =>
      have ha : a ∈ second := mem_of_filter_ties total h List.mem_cons_self
      cases second with
      | nil => contradiction
      | cons b second =>
          -- each head occurs in the other list, so the heads tie, and each is the first tie
          have hb : b ∈ a :: first :=
            mem_of_filter_ties total (fun c => (h c).symm) List.mem_cons_self
          have hab : le a b = true := le_of_mem_sorted total hfirst hb
          have hba : le b a = true := le_of_mem_sorted total hsecond ha
          have haa : le a a = true := by simpa using total a a
          have hheads := h a
          rw [List.filter_cons_of_pos (by simp [ties, haa]),
            List.filter_cons_of_pos (by simp [ties, hab, hba])] at hheads
          obtain ⟨heq, _⟩ := List.cons.inj hheads
          subst heq
          refine congrArg (a :: ·) (ih hfirst.of_cons hsecond.of_cons fun c => ?_)
          have hc := h c
          rw [List.filter_cons, List.filter_cons] at hc
          split at hc
          · exact (List.cons.inj hc).2
          · exact hc

/-- Lists with the same ties are sorted to the same list. -/
theorem mergeSort_eq_of_filter_ties
    (trans : ∀ a b c, le a b = true → le b c = true → le a c = true)
    (total : ∀ a b, (le a b || le b a) = true)
    (h : ∀ a, first.filter (ties le a) = second.filter (ties le a)) :
    first.mergeSort le = second.mergeSort le := by
  refine eq_of_filter_ties total (List.pairwise_mergeSort trans total _)
    (List.pairwise_mergeSort trans total _) fun a => ?_
  rw [filter_ties_mergeSort trans total, filter_ties_mergeSort trans total, h a]

/-- Sorting a part of a list first changes nothing. -/
theorem mergeSort_mergeSort_append
    (trans : ∀ a b c, le a b = true → le b c = true → le a c = true)
    (total : ∀ a b, (le a b || le b a) = true) (first second : List α) :
    (first.mergeSort le ++ second).mergeSort le = (first ++ second).mergeSort le := by
  refine mergeSort_eq_of_filter_ties trans total fun a => ?_
  rw [List.filter_append, List.filter_append, filter_ties_mergeSort trans total]

/-- Two elements in the wrong order change places. -/
theorem mergeSort_pair_of_not {a b : α} (h : le a b = false) : [a, b].mergeSort le = [b, a] := by
  simp [List.mergeSort, List.MergeSort.Internal.splitInTwo, h]

end EventChains
