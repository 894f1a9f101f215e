import EventChains.Proofs.Trace.FlowTime
import EventChains.Proofs.Trace.Runs
import Mathlib

/-!
# Flows in trace order

In trace order one event precedes another exactly if it is earlier, or arrived before it at the same
time (`Stable.precedes_iff`). So the start of a flow comes after its source. The end of the flow
comes after the start unless the source is too close to the target for that, and before the target
unless that is at time zero (`addFlow_order`).
-/

namespace EventChains.Trace

variable {trace : Trace}

/-- An id stands before another one in trace order. -/
def Precedes (trace : Trace) (first second : Nat) : Prop :=
  [first, second].Sublist trace.ids

instance (trace : Trace) (first second : Nat) : Decidable (trace.Precedes first second) :=
  inferInstanceAs (Decidable ([first, second].Sublist trace.ids))

/-- Entries whose ids stand in order stand in order themselves. -/
theorem Precedes.entries {first second : Nat} (h : trace.Precedes first second) :
    ∃ a b : Entry, [a, b].Sublist trace.order.toList ∧ a.id = first ∧ b.id = second := by
  obtain ⟨entries, hsublist, heq⟩ := List.sublist_map_iff.1 h
  match entries, heq with
  | [a, b], heq =>
      obtain ⟨hfirst, hsecond⟩ : first = a.id ∧ second = b.id := by simpa using heq
      exact ⟨a, b, hsublist, hfirst.symm, hsecond.symm⟩

/-- An event that precedes another one is earlier, or arrived before it at the same time. -/
theorem Stable.inOrder_of_precedes (stable : trace.Stable) {first second : Nat} {a b : Event}
    (ha : trace.get? first = some a) (hb : trace.get? second = some b)
    (h : trace.Precedes first second) : a.time ≤ b.time ∧ (b.time ≤ a.time → first < second) := by
  obtain ⟨x, y, hsublist, rfl, rfl⟩ := h.entries
  have hx := stable.get?_eq (hsublist.subset (List.mem_cons_self ..))
  have hy := stable.get?_eq (hsublist.subset (List.mem_cons_of_mem _ (List.mem_cons_self ..)))
  obtain rfl : x.event = a := Option.some.inj (hx.symm.trans ha)
  obtain rfl : y.event = b := Option.some.inj (hy.symm.trans hb)
  exact List.pairwise_iff_forall_sublist.1 stable.inOrder hsublist

/-- Of two different members of a list, one stands before the other. -/
theorem sublist_pair_or {α : Type} {items : List α} {a b : α} (ha : a ∈ items) (hb : b ∈ items)
    (hne : a ≠ b) : [a, b].Sublist items ∨ [b, a].Sublist items := by
  obtain ⟨before, after, rfl⟩ := List.append_of_mem ha
  rcases List.mem_append.1 hb with hb | hb
  · refine Or.inr ((List.singleton_sublist.2 hb).append (List.singleton_sublist.2 ?_))
    exact List.mem_cons_self ..
  · have hb := (List.mem_cons.1 hb).resolve_left hne.symm
    exact Or.inl (((List.singleton_sublist.2 hb).cons_cons a).trans (List.sublist_append_right _ _))

theorem Ordered.mem_ids (ordered : trace.Ordered) {id : Nat} {event : Event}
    (h : trace.get? id = some event) : id ∈ trace.ids := by
  rw [ordered.ids_perm.mem_iff, List.mem_range]
  exact (Array.getElem?_eq_some_iff.1 h).1

/-- One event precedes another exactly if it is earlier, or arrived before it at the same time. -/
theorem Stable.precedes_iff (stable : trace.Stable) {first second : Nat} {a b : Event}
    (ha : trace.get? first = some a) (hb : trace.get? second = some b) :
    trace.Precedes first second ↔ a.time ≤ b.time ∧ (b.time ≤ a.time → first < second) := by
  refine ⟨stable.inOrder_of_precedes ha hb, fun ⟨hle, htie⟩ => ?_⟩
  have hne : first ≠ second := by
    rintro rfl
    obtain rfl : a = b := Option.some.inj (ha.symm.trans hb)
    exact Nat.lt_irrefl _ (htie hle)
  rcases sublist_pair_or (stable.ordered.mem_ids ha) (stable.ordered.mem_ids hb) hne with h | h
  · exact h
  · have hreverse := stable.inOrder_of_precedes hb ha h
    exact absurd (htie hreverse.1) (Nat.lt_asymm (hreverse.2 hle))

/-- A flow between two events of a trace has the next two ids, and its events are found under
them. -/
theorem addFlow_of_ne_empty {name : String} (hname : name ≠ "") {source target : Nat}
    {origin goal : Event} (hsource : trace.get? source = some origin)
    (htarget : trace.get? target = some goal) :
    let start := flowStartEvent name hname origin (trace.flowNumber name)
    let finish := flowEndEvent name hname goal (trace.flowNumber name)
    let later := ((trace.registerFlow name).add start).add finish
    trace.addFlow name source target = (later, .ok (trace.size, trace.size + 1)) ∧
      later.get? trace.size = some start ∧ later.get? (trace.size + 1) = some finish := by
  intro start finish later
  refine ⟨?_, ?_, ?_⟩
  · unfold addFlow
    rw [hsource, htarget]
    dsimp only
    rw [flowEvents_eq, dif_neg hname]
  · have hstart := (trace.registerFlow name).get?_add_size start
    rw [size_registerFlow] at hstart
    exact (grows_add _ finish).get?_eq hstart
  · have hfinish := ((trace.registerFlow name).add start).get?_add_size finish
    rw [size_add, size_registerFlow] at hfinish
    exact hfinish

/-- A flow starts after its source. It ends after its start exactly if the source is not later than
the time just before the target, and before its target, up to `2 ^ 34` milliseconds, exactly if that
is not at time zero. -/
theorem addFlow_order (built : trace.Built) {name : String} (hname : name ≠ "")
    {source target : Nat} {origin goal : Event} (hsource : trace.get? source = some origin)
    (htarget : trace.get? target = some goal) :
    ∃ later start finish, trace.addFlow name source target = (later, .ok (start, finish)) ∧
      later.Precedes source start ∧
      (later.Precedes start finish ↔ origin.time ≤ flowEnd goal.time) ∧
      (goal.time.worth ≤ 2 ^ 34 → (later.Precedes finish target ↔ 0 < goal.time.worth)) := by
  obtain ⟨hadd, hstart, hfinish⟩ := addFlow_of_ne_empty hname hsource htarget
  have grows := trace.grows_addFlow name source target
  have stable := (built.addFlow name source target).stable
  rw [hadd] at grows stable
  have hsourceLess : source < trace.size := (Array.getElem?_eq_some_iff.1 hsource).1
  have htargetLess : target < trace.size := (Array.getElem?_eq_some_iff.1 htarget).1
  have hsource := grows.get?_eq hsource
  have htarget := grows.get?_eq htarget
  refine ⟨_, _, _, hadd, ?_, ?_, fun hreach => ?_⟩
  · rw [stable.precedes_iff hsource hstart]
    exact ⟨Timestamp.le_refl _, fun _ => hsourceLess⟩
  · rw [stable.precedes_iff hstart hfinish]
    exact ⟨And.left, fun hle => ⟨hle, fun _ => Nat.lt_succ_self _⟩⟩
  · have hless := flowEnd_lt_iff goal.time
    rw [and_iff_left hreach, Timestamp.lt_iff_not_le] at hless
    rw [stable.precedes_iff hfinish htarget, ← hless]
    constructor
    · intro ⟨_, htie⟩ hle
      have := htie hle
      omega
    · intro hlt
      exact ⟨(Timestamp.le_total _ _).resolve_right hlt, fun hle => absurd hle hlt⟩

/-! ## Flows between two loads -/

/-- A flow from one millisecond to four has its two events in between. -/
theorem addFlow_order_loads :
    let trace := loadsAt [⟨1, by decide, by decide⟩, ⟨4, by decide, by decide⟩]
    trace.Built ∧ ∃ origin goal, trace.get? 0 = some origin ∧ trace.get? 1 = some goal ∧
      origin.time ≤ flowEnd goal.time ∧ 0 < goal.time.worth ∧ goal.time.worth ≤ 2 ^ 34 ∧
      ∃ later start finish, trace.addFlow "send" 0 1 = (later, .ok (start, finish)) ∧
        later.Precedes 0 start ∧ later.Precedes start finish ∧ later.Precedes finish 1 := by
  intro trace
  have built : trace.Built := built_loadsAt _
  have hmagnitude : Timestamp.magnitude ⟨4, by decide, by decide⟩ = ⟨2 ^ 52, -50, true⟩ := by
    decide +kernel
  have hworth : Timestamp.worth ⟨4, by decide, by decide⟩ = 4 := by
    rw [Timestamp.worth, hmagnitude, Decimal.Magnitude.worth]
    norm_num
  obtain ⟨later, start, finish, hadd, hsource, hends, htarget⟩ :=
    addFlow_order built send_ne_empty (rfl : trace.get? 0 = some _) (rfl : trace.get? 1 = some _)
  have hearly : (⟨1, by decide, by decide⟩ : Timestamp) ≤ flowEnd ⟨4, by decide, by decide⟩ := by
    decide +kernel
  have hpos : 0 < Timestamp.worth ⟨4, by decide, by decide⟩ := by
    rw [hworth]
    norm_num
  have hreach : Timestamp.worth ⟨4, by decide, by decide⟩ ≤ 2 ^ 34 := by
    rw [hworth]
    norm_num
  exact ⟨built, _, _, rfl, rfl, hearly, hpos, hreach, later, start, finish, hadd, hsource,
    hends.2 hearly, (htarget hreach).2 hpos⟩

/-- A flow to an event at time zero ends after it. A flow to an event that is less than a nanosecond
later than its source ends before it starts. A flow to an event of the year 2023 in milliseconds
since 1970 ends after it. -/
theorem not_precedes_addFlow :
    let same := loadsAt [.zero, .zero]
    let near := loadsAt [⟨1, by decide, by decide⟩, ⟨1.0000005, by decide, by decide⟩]
    let late := loadsAt
      [⟨1700000000000, by decide, by decide⟩, ⟨1700000000001, by decide, by decide⟩]
    (same.Built ∧ same.Precedes 0 1 ∧
      (same.addFlow "send" 0 1).2 = .ok (2, 3) ∧ ¬ (same.addFlow "send" 0 1).1.Precedes 3 1) ∧
    (near.Built ∧ near.Precedes 0 1 ∧
      (near.addFlow "send" 0 1).2 = .ok (2, 3) ∧ ¬ (near.addFlow "send" 0 1).1.Precedes 2 3) ∧
    (late.Built ∧ late.Precedes 0 1 ∧
      (late.addFlow "send" 0 1).2 = .ok (2, 3) ∧ ¬ (late.addFlow "send" 0 1).1.Precedes 3 1) := by
  refine ⟨?_, ?_, ?_⟩
  · exact ⟨built_loadsAt _, by decide +kernel, rfl, by decide +kernel⟩
  · exact ⟨built_loadsAt _, by decide +kernel, rfl, by decide +kernel⟩
  · exact ⟨built_loadsAt _, by decide +kernel, rfl, by decide +kernel⟩

end EventChains.Trace
