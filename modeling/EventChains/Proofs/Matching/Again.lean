import EventChains.Proofs.Matching.Parts
import EventChains.Proofs.Matching.Path

/-!
# Matching again what has been found

The events of no chain can be left out: what a walk takes up to the end of a chain it also takes
among the events of the chains (`prefix_walk_filter`), and no event of a chain becomes the first
event of another one. So a pattern finds the same chains in the part of a trace that has only the
events of its chains (`find_again`).
-/

namespace EventChains.Matching

variable {rule : RepeatRule} {tokens following : List Token} {name : String} {edge : Edge}
  {claimed : Finset Nat} {start : Placed} {later rest taken : List Placed} {keep : Placed → Bool}

/-- A start of a walk is a start of the walk among fewer events, if none of its own is left out. -/
theorem prefix_walk_filter {view : View} (hpre : taken <+: view.walk rest)
    (hkeep : ∀ placed ∈ taken, keep placed = true) : taken <+: view.walk (rest.filter keep) := by
  induction rest generalizing view taken with
  | nil => exact hpre
  | cons head tail ih =>
      by_cases hsees : view.Sees head.1
      · -- the walk goes to `head`, which is kept if it is taken
        rw [View.walk, if_pos hsees] at hpre
        cases taken with
        | nil => exact List.nil_prefix
        | cons first more =>
            obtain ⟨rfl, hmore⟩ := List.cons_prefix_cons.1 hpre
            obtain ⟨hfirst, hkeep⟩ := List.forall_mem_cons.1 hkeep
            rw [List.filter_cons_of_pos hfirst, View.walk, if_pos hsees]
            exact (List.prefix_cons_inj first).2 (ih hmore hkeep)
      · rw [View.walk, if_neg hsees] at hpre
        cases hhead : keep head with
        | false =>
            rw [List.filter_cons_of_neg (by simp [hhead])]
            exact ih hpre hkeep
        | true =>
            rw [List.filter_cons_of_pos hhead, View.walk, if_neg hsees]
            exact ih hpre hkeep

/-- An occurrence is found again among fewer events, if none of its own is left out. -/
theorem occurrenceAt?_filter
    (h : occurrenceAt? rule (.named name edge :: following) claimed start later = some taken)
    (hkeep : ∀ placed ∈ taken, keep placed = true) :
    occurrenceAt? rule (.named name edge :: following) claimed start (later.filter keep) =
      some taken := by
  obtain ⟨hpre, _, more, rfl⟩ := spec_of_occurrenceAt? h
  have hmore : more <+: (View.start start.1).walk (later.filter keep) :=
    prefix_walk_filter ((List.prefix_cons_inj start).1 hpre) (List.forall_mem_cons.1 hkeep).2
  exact occurrenceAt?_of_isPrefix h ((List.prefix_cons_inj start).2 hmore)

/-- The same chains are found when only events of no chain are left out. -/
theorem occurrences_filter (increasing : rest.Pairwise fun a b => a.2 < b.2)
    (hoccurs : ∀ taken ∈ occurrences rule (.named name edge :: following) claimed rest,
      ∀ placed ∈ taken, keep placed = true)
    (hkeep : ∀ placed ∈ rest, keep placed = true → placed.2 ∈ claimed ∨
      ∃ taken ∈ occurrences rule (.named name edge :: following) claimed rest,
        placed.2 ∈ positions taken) :
    occurrences rule (.named name edge :: following) claimed (rest.filter keep) =
      occurrences rule (.named name edge :: following) claimed rest := by
  induction rest generalizing claimed with
  | nil => rfl
  | cons start later ih =>
      obtain ⟨hbound, increasing⟩ := List.pairwise_cons.1 increasing
      cases hat : occurrenceAt? rule (.named name edge :: following) claimed start later with
      | some taken =>
          rw [occurrences_of_some hat] at hoccurs hkeep ⊢
          obtain ⟨htaken, hoccurs⟩ := List.forall_mem_cons.1 hoccurs
          have hstart : keep start = true := by
            obtain ⟨_, _, more, rfl⟩ := spec_of_occurrenceAt? hat
            exact htaken start List.mem_cons_self
          rw [List.filter_cons_of_pos hstart, occurrences_of_some (occurrenceAt?_filter hat htaken)]
          refine congrArg (taken :: ·) (ih increasing hoccurs fun placed hplaced hkept => ?_)
          rw [Finset.mem_union]
          rcases hkeep placed (List.mem_cons_of_mem _ hplaced) hkept with h | ⟨other, hother, h⟩
          · exact Or.inl (Or.inl h)
          · rcases List.mem_cons.1 hother with rfl | hother
            · exact Or.inl (Or.inr h)
            · exact Or.inr ⟨other, hother, h⟩
      | none =>
          rw [occurrences_of_none hat] at hoccurs hkeep ⊢
          have hrest := ih increasing hoccurs fun placed hplaced =>
            hkeep placed (List.mem_cons_of_mem _ hplaced)
          cases hstart : keep start with
          | false => rw [List.filter_cons_of_neg (by simp [hstart]), hrest]
          | true =>
              -- a chain with `start` in it has begun before, so `start` cannot begin one
              have hclaimed : start.2 ∈ claimed := by
                refine (hkeep start List.mem_cons_self hstart).resolve_right ?_
                rintro ⟨taken, htaken, hmem⟩
                obtain ⟨placed, hplaced, heq⟩ := mem_positions.1 hmem
                have hlt := hbound placed ((of_mem_occurrences htaken).1.subset hplaced)
                omega
              rw [List.filter_cons_of_pos hstart,
                occurrences_of_none (occurrenceAt?_of_claimed hclaimed), hrest]

/-! ## The events of chains -/

/-- Whether an entry is in one of some chains. -/
def inChains (chains : List Chain) (entry : Entry) : Bool :=
  chains.any fun chain => chain.events.contains entry.id

variable {trace : Trace}

/-- An entry is in a chain exactly if its position is in the path of the chain. -/
theorem mem_events_chainOfPath (ordered : trace.Ordered) (label : String) {path : List Nat}
    {entry : Entry} {position : Nat} (h : trace.order[position]? = some entry) :
    entry.id ∈ (chainOfPath trace label path).events ↔ position ∈ path := by
  have hid : trace.ids[position]? = some entry.id := by
    rw [Trace.ids, List.getElem?_map, Array.getElem?_toList, h]
    rfl
  rw [events_chainOfPath, List.mem_filterMap]
  constructor
  · rintro ⟨i, hi, hentry⟩
    have hlt : i < trace.ids.length := (List.getElem?_eq_some_iff.1 hentry).1
    rwa [← (List.getElem?_inj hlt ordered.ids_nodup).1 (hentry.trans hid.symm)]
  · intro hposition
    exact ⟨position, hposition, hid⟩

/-- The events of the chains of some occurrences, with their positions. -/
theorem placedWhere_inChains (ordered : trace.Ordered) (label : String)
    (occurs : List (List Placed)) :
    trace.placedWhere
        (inChains (occurs.map fun taken => chainOfPath trace label (taken.map Prod.snd))) =
      trace.placed.filter fun placed => occurs.any fun taken => placed.2 ∈ positions taken := by
  rw [Trace.placedWhere, Trace.keptWhere, Trace.placed_eq_map, List.filter_map]
  congr 1
  refine List.filter_congr fun kept hkept => ?_
  have hentry : trace.order[kept.2]? = some kept.1 := by
    rw [← Array.getElem?_toList]
    exact List.mem_zipIdx_iff_getElem?.1 hkept
  rw [Bool.eq_iff_iff]
  simp only [inChains, List.any_map, List.any_eq_true, Function.comp_apply, List.contains_iff_mem,
    mem_events_chainOfPath ordered label hentry, decide_eq_true_eq, positions, List.mem_toFinset]

/-- A compiled pattern finds the same chains, and no others, in the trace of the events that are in
its chains, where the kinds may have other numbers. They fit into numbers of 32 bits. -/
theorem find_again {source : String} {pattern : Pattern} (h : Pattern.compile source = .ok pattern)
    (built : trace.Built) (fit : trace.KindsFit) (label : String) (rule : RepeatRule) :
    let chains := find trace pattern label rule
    let chained := trace.part (inChains chains)
    chained.events = (trace.order.toList.filter (inChains chains)).map (·.event) ∧
      (find chained pattern label rule).map (Chain.carried (trace.idsWhere (inChains chains))) =
        chains := by
  obtain ⟨name, edge, following, htokens⟩ := Pattern.tokens_of_compile h
  have separated := Pattern.separated_of_compile h
  have ordered := built.ordered
  intro chains chained
  refine ⟨Trace.events_part ordered.inTime, ?_⟩
  have hchains : chains = (occurrences rule pattern.tokens ∅ trace.placed).map
      fun taken => chainOfPath trace label (taken.map Prod.snd) :=
    find_eq_map_occurrences htokens separated fit label rule
  rw [← map_occurrences_placedWhere htokens separated ordered.inTime fit, hchains,
    placedWhere_inChains ordered, htokens]
  congr 1
  refine occurrences_filter trace.placed_increasing (fun taken htaken placed hplaced => ?_)
    fun placed _ hkept => ?_
  · exact List.any_eq_true.2 ⟨taken, htaken, by simpa using mem_positions.2 ⟨placed, hplaced, rfl⟩⟩
  · obtain ⟨taken, htaken, hmem⟩ := List.any_eq_true.1 hkept
    exact Or.inr ⟨taken, htaken, by simpa using hmem⟩

/-- A load in the midst of other events of its scope. -/
def crowded : List Event :=
  [⟨"idle", .instant, .zero, {}, none, [], by decide⟩,
    ⟨"load", .spanBegin, .zero, {}, none, [], Trace.load_ne_empty⟩,
    ⟨"read", .instant, .zero, {}, none, [], Trace.read_ne_empty⟩,
    ⟨"load", .spanEnd, .zero, {}, none, [], Trace.load_ne_empty⟩,
    ⟨"idle", .instant, .zero, {}, none, [], by decide⟩]

/-- A load is found again without the events before and after it. -/
theorem find_again_crowded :
    let trace := Trace.ofEvents crowded
    let chains := find trace .load "loads" .noRepeat
    let chained := trace.part (inChains chains)
    Pattern.compile "load+ * load-" = .ok .load ∧ trace.Built ∧ trace.KindsFit ∧
      chains = [chainOfPath trace "loads" [1, 2, 3]] ∧
      chained.events = (trace.order.toList.filter (inChains chains)).map (·.event) ∧
      (find chained .load "loads" .noRepeat).map
        (Chain.carried (trace.idsWhere (inChains chains))) = chains := by
  intro trace chains chained
  have built : trace.Built := Trace.built_ofEvents crowded
  have inTime : Trace.EventsInTime crowded := by
    unfold Trace.EventsInTime crowded
    decide
  have hchains : chains = [chainOfPath trace "loads" [1, 2, 3]] :=
    find_ofEvents rfl (Pattern.separated_of_compile Pattern.compile_load) inTime (by decide) "loads"
      .noRepeat
  have fit : trace.KindsFit := Trace.kindsFit_of_length_le (by decide +kernel)
  exact ⟨Pattern.compile_load, built, fit, hchains,
    find_again Pattern.compile_load built fit "loads" .noRepeat⟩

end EventChains.Matching
