import EventChains.Proofs.KeyOrder
import EventChains.Proofs.Trace.Built

/-!
# Names in key order

Setting a name keeps a table in the order of its keys, each key once (`NameTable.InOrder.set`), so
that a key stands in one entry at most (`NameTable.InOrder.filter_eq`). The tables of every trace
that operations build are in order (`Trace.Built.namesInOrder`).
-/

namespace EventChains

namespace NameTable

variable {κ : Type} [DecidableEq κ] [LT κ] [DecidableLT κ] {table : NameTable κ}
variable {entry : κ × String}

/-- A table in the order of its keys, each key once. -/
def InOrder (table : NameTable κ) : Prop :=
  table.Pairwise fun earlier later => earlier.1 < later.1

/-- What is in a table after a name is set was there before, or is the name. -/
theorem mem_set {key : κ} {name : String} (h : entry ∈ table.set key name) :
    entry = (key, name) ∨ entry ∈ table := by
  induction table with
  | nil => exact Or.inl (List.mem_singleton.1 h)
  | cons first rest ih =>
      rw [set] at h
      split_ifs at h with heq hlt
      · exact (List.mem_cons.1 h).imp_right (List.mem_cons_of_mem _)
      · exact List.mem_cons.1 h
      · rcases List.mem_cons.1 h with rfl | hrest
        · exact Or.inr List.mem_cons_self
        · exact (ih hrest).imp_right (List.mem_cons_of_mem _)

/-- Setting a name keeps the order of the keys. -/
theorem InOrder.set [IsStrictTotalOrder κ (· < ·)] (ordered : table.InOrder) (key : κ)
    (name : String) : (table.set key name).InOrder := by
  induction table with
  | nil => exact List.pairwise_singleton _ _
  | cons first rest ih =>
      obtain ⟨hfirst, hrest⟩ := List.pairwise_cons.1 ordered
      rw [NameTable.set]
      split_ifs with heq hlt
      · subst heq
        exact List.pairwise_cons.2 ⟨hfirst, hrest⟩
      · refine List.pairwise_cons.2 ⟨fun later hlater => ?_, ordered⟩
        rcases List.mem_cons.1 hlater with rfl | hlater
        · exact hlt
        · exact trans_of (· < ·) hlt (hfirst later hlater)
      · refine List.pairwise_cons.2 ⟨fun later hlater => ?_, ih hrest⟩
        rcases mem_set hlater with rfl | hlater
        · exact (trichotomous_of (· < ·) first.1 key).resolve_right fun h => h.elim heq hlt
        · exact hfirst later hlater

omit [DecidableLT κ] in
/-- In key order the name under a key stands in the only entry with that key. -/
theorem InOrder.filter_eq [IsStrictTotalOrder κ (· < ·)] (ordered : table.InOrder) (key : κ) :
    table.filter (fun entry => entry.1 = key) = (table.get? key).toList.map (key, ·) := by
  induction table with
  | nil => rfl
  | cons first rest ih =>
      obtain ⟨hfirst, hrest⟩ := List.pairwise_cons.1 ordered
      by_cases hkey : first.1 = key
      · have hlater : rest.filter (fun entry => entry.1 = key) = [] := by
          refine List.filter_eq_nil_iff.2 fun later hmem hlater => irrefl_of (· < ·) key ?_
          have hlt := hfirst later hmem
          rwa [hkey, of_decide_eq_true hlater] at hlt
        rw [List.filter_cons_of_pos (by simpa using hkey), hlater, get?, if_pos hkey, ← hkey]
        rfl
      · rw [List.filter_cons_of_neg (by simpa using hkey), get?, if_neg hkey]
        exact ih hrest

end NameTable

namespace Trace

/-- The names of a trace stand in key order, each key once. -/
structure NamesInOrder (trace : Trace) : Prop where
  processes : trace.processNames.InOrder
  threads : trace.threadNames.InOrder

/-- Giving a flow its number names nothing. -/
theorem NamesInOrder.registerFlow {trace : Trace} (ordered : trace.NamesInOrder) (name : String) :
    (trace.registerFlow name).NamesInOrder := by
  unfold Trace.registerFlow
  split
  · exact ordered
  · exact ⟨ordered.processes, ordered.threads⟩

/-- Adding an event names nothing. -/
theorem NamesInOrder.add {trace : Trace} (ordered : trace.NamesInOrder) (event : Event) :
    (trace.add event).NamesInOrder :=
  ⟨ordered.processes, ordered.threads⟩

/-- The names of every trace that operations build stand in key order. -/
theorem Built.namesInOrder {trace : Trace} (built : trace.Built) : trace.NamesInOrder := by
  induction built with
  | empty => exact ⟨List.Pairwise.nil, List.Pairwise.nil⟩
  | add event _ ih => exact ih.add event
  | @addFlow trace name source target _ ih =>
      obtain ⟨fault, h⟩ | ⟨fault, h⟩ | ⟨_, _, start, finish, _, _, _, h⟩ :=
        trace.addFlow_cases name source target
      · rw [h]
        exact ih
      · rw [h]
        exact ih.registerFlow name
      · rw [h]
        exact ((ih.registerFlow name).add start).add finish
  | nameProcess pid name _ ih => exact ⟨ih.processes.set pid name, ih.threads⟩
  | nameThread scope name _ ih => exact ⟨ih.processes, ih.threads.set scope name⟩

end Trace

end EventChains
