import EventChains.Proofs.Matching.Parts
import EventChains.Proofs.Matching.Starts
import Mathlib.Data.List.Dedup

/-!
# Groups of scopes

Where no flow that begins in one group of scopes ends in another one, a walk stays in the group of
its first event (`walk_filter_group`). All candidates of a scan share the claimed events and the
memory, and yet a scan of the whole trace finds in each group what a scan of the group alone finds
there: `filter_occurrences` for the occurrences, `find_eq_merge` for the chains.
-/

namespace EventChains

open Matching

variable {ι : Type}

/-- No flow that begins in one group of scopes ends in another group. -/
def FlowsWithin (group : Scope → ι) (events : List Event) : Prop :=
  ∀ a ∈ events, ∀ b ∈ events, a.phase = .flowBegin → b.phase = .flowEnd →
    a.flowKey = b.flowKey → group a.scope = group b.scope

/-- Where there are no flows, none leaves its group. -/
theorem flowsWithin_of_noFlow {events : List Event}
    (hflow : ∀ event ∈ events, event.phase.isFlow = false) (group : Scope → ι) :
    FlowsWithin group events := by
  intro a ha _ _ hbegin
  have hnot := hflow a ha
  rw [hbegin] at hnot
  contradiction

variable [DecidableEq ι]

/-- Whether an entry belongs to a group of scopes. -/
def inGroup (group : Scope → ι) (g : ι) (entry : Entry) : Bool :=
  group entry.event.scope = g

namespace Trace

variable (trace : Trace)

/-- The groups that the scopes of a trace belong to. -/
def groups (group : Scope → ι) : List ι :=
  (trace.events.map fun event => group event.scope).dedup

/-- The chains of several lists, merged by the positions of their first events. -/
def mergeChains (lists : List (List Chain)) : List Chain :=
  lists.flatten.mergeSort fun a b => trace.firstPosition a ≤ trace.firstPosition b

/-- The chains of a pattern among the events of a group alone, with the ids of the whole trace. -/
def chainsOfGroup (pattern : Pattern) (label : String) (rule : RepeatRule) (group : Scope → ι)
    (g : ι) : List Chain :=
  (find (trace.part (inGroup group g)) pattern label rule).map
    (Chain.carried (trace.idsWhere (inGroup group g)))

/-- The chains of a list with all events in a group. -/
def chainsIn (group : Scope → ι) (g : ι) (chains : List Chain) : List Chain :=
  chains.filter fun chain => chain.events.all fun id => id ∈ trace.idsWhere (inGroup group g)

/-- The part of a trace in a group is the trace of the events in the group. -/
theorem part_inGroup (group : Scope → ι) (g : ι) :
    trace.part (inGroup group g) =
      ofEvents (trace.events.filter fun event => group event.scope = g) := by
  rw [part, entriesWhere, events, List.filter_map]
  rfl

end Trace

namespace Matching

variable {rule : RepeatRule} {tokens following : List Token} {name : String} {edge : Edge}
  {claimed claimed' : Finset Nat} {start : Placed} {later rest taken : List Placed}
  {group : Scope → ι} {g : ι} {trace : Trace}

/-! ## Walks in a group -/

/-- A walk in a group sees nothing outside of the group, as long as the flows that it has entered
end in the group. -/
theorem walk_filter_group {view : View} (within : FlowsWithin group (rest.map Prod.fst))
    (hscopes : ∀ scope ∈ view.scopes, group scope = g)
    (hflows : ∀ placed ∈ rest, placed.1.phase = .flowEnd → placed.1.flowKey ∈ view.flows →
      group placed.1.scope = g) :
    view.walk (rest.filter fun placed => group placed.1.scope = g) = view.walk rest := by
  induction rest generalizing view with
  | nil => rfl
  | cons head tail ih =>
      obtain ⟨hhead, hflows⟩ := List.forall_mem_cons.1 hflows
      have htail : FlowsWithin group (tail.map Prod.fst) := fun a ha b hb =>
        within a (List.mem_cons_of_mem _ ha) b (List.mem_cons_of_mem _ hb)
      by_cases hsees : view.Sees head.1
      · have hgroup : group head.1.scope = g := by
          rcases hsees with hscope | ⟨hphase, hflow⟩
          · exact hscopes _ hscope
          · exact hhead hphase hflow
        rw [List.filter_cons_of_pos (by simpa using hgroup), View.walk, View.walk, if_pos hsees,
          if_pos hsees]
        refine congrArg (head :: ·) (ih htail ?_ ?_)
        · -- an end of a flow adds its scope, which is in the group
          intro scope hscope
          unfold View.after at hscope
          split at hscope
          · exact hscopes scope hscope
          · rcases Finset.mem_insert.1 hscope with rfl | hscope
            · exact hgroup
            · exact hscopes scope hscope
          · exact hscopes scope hscope
        · -- a begin of a flow adds a flow that begins in the group and so ends there
          intro placed hplaced hphase hflow
          unfold View.after at hflow
          split at hflow
          · rename_i hbegin
            rcases Finset.mem_insert.1 hflow with heq | hflow
            · have hsame := within head.1 List.mem_cons_self placed.1
                (List.mem_cons_of_mem _ (List.mem_map_of_mem hplaced)) hbegin hphase heq.symm
              rw [← hsame, hgroup]
            · exact hflows placed hplaced hphase hflow
          · exact hflows placed hplaced hphase (Finset.mem_of_mem_erase hflow)
          · exact hflows placed hplaced hphase hflow
      · rw [View.walk, if_neg hsees, ← ih htail hscopes hflows]
        by_cases hgroup : group head.1.scope = g
        · rw [List.filter_cons_of_pos (by simpa using hgroup), View.walk, if_neg hsees]
        · rw [List.filter_cons_of_neg (by simpa using hgroup)]

/-- The walk from an event stays in the group of the event. -/
theorem walk_start_filter_group (within : FlowsWithin group (later.map Prod.fst))
    (hstart : group start.1.scope = g) :
    (View.start start.1).walk (later.filter fun placed => group placed.1.scope = g) =
      (View.start start.1).walk later := by
  refine walk_filter_group within (fun scope hscope => ?_) fun placed _ _ hflow => ?_
  · rw [Finset.mem_singleton.1 hscope, hstart]
  · exact absurd hflow (Finset.notMem_empty _)

/-- All events of an occurrence are in the group of its first event. -/
theorem group_of_occurrenceAt? (within : FlowsWithin group (later.map Prod.fst))
    (h : occurrenceAt? rule (.named name edge :: following) claimed start later = some taken) :
    ∀ placed ∈ taken, group placed.1.scope = group start.1.scope := by
  intro placed hplaced
  have hwalk := (spec_of_occurrenceAt? h).1.subset hplaced
  rcases List.mem_cons.1 hwalk with rfl | hwalk
  · rfl
  · rw [← walk_start_filter_group within rfl] at hwalk
    have hmem := (View.walk_sublist _ _).subset hwalk
    simpa using List.of_mem_filter hmem

/-! ## Occurrences in a group -/

/-- Whether the first event of an occurrence is in a group. -/
def startsIn (group : Scope → ι) (g : ι) (taken : List Placed) : Bool :=
  taken.head?.any fun placed => group placed.1.scope = g

/-- The occurrences that start in a group are those among the events of the group. -/
theorem filter_occurrences (within : FlowsWithin group (rest.map Prod.fst))
    (increasing : rest.Pairwise fun a b => a.2 < b.2) (g : ι) :
    (occurrences rule (.named name edge :: following) claimed rest).filter (startsIn group g) =
      occurrences rule (.named name edge :: following) claimed
        (rest.filter fun placed => group placed.1.scope = g) := by
  induction rest generalizing claimed with
  | nil => rfl
  | cons start later ih =>
      have hlater : FlowsWithin group (later.map Prod.fst) := fun a ha b hb =>
        within a (List.mem_cons_of_mem _ ha) b (List.mem_cons_of_mem _ hb)
      by_cases hgroup : group start.1.scope = g
      · -- the walk from `start` is the same among the events of the group
        have hat : occurrenceAt? rule (.named name edge :: following) claimed start
            (later.filter fun placed => group placed.1.scope = g) =
              occurrenceAt? rule (.named name edge :: following) claimed start later := by
          rw [occurrenceAt?, occurrenceAt?, walk_start_filter_group hlater hgroup]
        rw [List.filter_cons_of_pos (by simpa using hgroup)]
        cases hfound : occurrenceAt? rule (.named name edge :: following) claimed start later with
        | none =>
            rw [occurrences_of_none hfound, occurrences_of_none (hat.trans hfound)]
            exact ih hlater increasing.of_cons
        | some taken =>
            obtain ⟨_, _, more, rfl⟩ := spec_of_occurrenceAt? hfound
            rw [occurrences_of_some hfound, occurrences_of_some (hat.trans hfound),
              List.filter_cons_of_pos (by simpa [startsIn] using hgroup)]
            exact congrArg (_ :: ·) (ih hlater increasing.of_cons)
      · rw [List.filter_cons_of_neg (by simpa using hgroup)]
        cases hfound : occurrenceAt? rule (.named name edge :: following) claimed start later with
        | none =>
            rw [occurrences_of_none hfound]
            exact ih hlater increasing.of_cons
        | some taken =>
            obtain ⟨hpre, _, more, hmore⟩ := spec_of_occurrenceAt? hfound
            have hother : ¬ startsIn group g taken = true := by
              simpa [startsIn, hmore] using hgroup
            rw [occurrences_of_some hfound, List.filter_cons_of_neg hother,
              ih hlater increasing.of_cons]
            -- what the occurrence claims is in another group
            refine occurrences_congr fun placed hplaced => ?_
            rw [Finset.mem_union]
            refine or_iff_left fun hmem => hgroup ?_
            obtain ⟨hplaced, hin⟩ := List.mem_filter.1 hplaced
            obtain ⟨other, hother, heq⟩ := mem_positions.1 hmem
            have hsublist := ((View.start start.1).walk_sublist later).cons_cons start
            have hsame : other = placed := eq_of_position_eq increasing
              (hsublist.subset (hpre.subset hother)) (List.mem_cons_of_mem _ hplaced) heq
            rw [← group_of_occurrenceAt? hlater hfound other hother, hsame]
            simpa using hin

/-- All events of an occurrence are in the group that it starts in. -/
theorem startsIn_iff (within : FlowsWithin group (rest.map Prod.fst))
    (increasing : rest.Pairwise fun a b => a.2 < b.2)
    (h : taken ∈ occurrences rule (.named name edge :: following) claimed rest) :
    startsIn group g taken = true ↔ ∀ placed ∈ taken, group placed.1.scope = g := by
  constructor
  · intro hstart placed hplaced
    have hmem := List.mem_filter.2 ⟨h, hstart⟩
    rw [filter_occurrences within increasing] at hmem
    simpa using List.of_mem_filter ((of_mem_occurrences hmem).1.subset hplaced)
  · intro hall
    cases taken with
    | nil => exact absurd rfl (of_mem_occurrences h).2.2
    | cons start more => simpa [startsIn] using hall start List.mem_cons_self

/-! ## Chains in a group -/

/-- The events of a group with their positions. -/
theorem placedWhere_inGroup (trace : Trace) (group : Scope → ι) (g : ι) :
    trace.placedWhere (inGroup group g) =
      trace.placed.filter fun placed => group placed.1.scope = g := by
  rw [Trace.placedWhere, Trace.keptWhere, Trace.placed_eq_map, List.filter_map]
  rfl

/-- The chains of a group are the occurrences that start in the group. -/
theorem chainsOfGroup_eq {pattern : Pattern}
    (htokens : pattern.tokens = .named name edge :: following)
    (separated : Pattern.Separated pattern.tokens) (ordered : trace.Ordered) (fit : trace.KindsFit)
    (within : FlowsWithin group trace.events) (label : String) (rule : RepeatRule) (g : ι) :
    trace.chainsOfGroup pattern label rule group g =
      ((occurrences rule pattern.tokens ∅ trace.placed).filter (startsIn group g)).map
        fun taken => chainOfPath trace label (taken.map Prod.snd) := by
  rw [Trace.chainsOfGroup, ← map_occurrences_placedWhere htokens separated ordered.inTime fit,
    placedWhere_inGroup, htokens, filter_occurrences (by rwa [map_fst_placed])
      trace.placed_increasing]

/-- The ids of some events are those of their entries. -/
theorem mem_idsWhere (ordered : trace.Ordered) {keep : Entry → Bool} {entry : Entry}
    (hentry : entry ∈ trace.order.toList) :
    entry.id ∈ trace.idsWhere keep ↔ keep entry = true := by
  rw [Trace.idsWhere, Trace.entriesWhere, List.mem_map]
  constructor
  · rintro ⟨other, hother, heq⟩
    obtain ⟨hmem, hkeep⟩ := List.mem_filter.1 hother
    rwa [← List.inj_on_of_nodup_map ordered.ids_nodup hmem hentry heq]
  · intro hkeep
    exact ⟨entry, List.mem_filter.2 ⟨hentry, hkeep⟩, rfl⟩

/-- The chain of some events of a trace has the ids of their entries. -/
theorem forall_mem_events_chainOfPath (ordered : trace.Ordered) (label : String)
    (hsublist : taken.Sublist trace.placed) :
    (∀ id ∈ (chainOfPath trace label (taken.map Prod.snd)).events,
        id ∈ trace.idsWhere (inGroup group g)) ↔
      ∀ placed ∈ taken, group placed.1.scope = g := by
  have hentry (entry : Entry) {position : Nat} (h : trace.order[position]? = some entry) :
      entry.id ∈ trace.idsWhere (inGroup group g) ↔ group entry.event.scope = g := by
    have hmem := List.mem_of_getElem? ((Array.getElem?_toList ..).trans h)
    rw [mem_idsWhere ordered hmem, inGroup, decide_eq_true_eq]
  show (∀ id ∈ ((taken.map Prod.snd).filterMap (trace.order[·]?)).map (·.id), _) ↔ _
  rw [List.forall_mem_map]
  constructor
  · intro hall placed hmem
    obtain ⟨entry, hposition, heq⟩ := exists_entry (hsublist.subset hmem)
    rw [← heq, ← hentry entry hposition]
    exact hall entry (List.mem_filterMap.2 ⟨placed.2, List.mem_map_of_mem hmem, hposition⟩)
  · intro hall entry hmem
    obtain ⟨position, hposition, hfound⟩ := List.mem_filterMap.1 hmem
    obtain ⟨placed, hmem, rfl⟩ := List.mem_map.1 hposition
    obtain ⟨other, hother, heq⟩ := exists_entry (hsublist.subset hmem)
    cases hother.symm.trans hfound
    rw [hentry entry hfound, heq]
    exact hall placed hmem

/-- The chains in a group are the chains of the group. -/
theorem chainsIn_find {pattern : Pattern} (htokens : pattern.tokens = .named name edge :: following)
    (separated : Pattern.Separated pattern.tokens) (ordered : trace.Ordered) (fit : trace.KindsFit)
    (within : FlowsWithin group trace.events) (label : String) (rule : RepeatRule) (g : ι) :
    trace.chainsIn group g (find trace pattern label rule) =
      trace.chainsOfGroup pattern label rule group g := by
  rw [chainsOfGroup_eq htokens separated ordered fit within,
    find_eq_map_occurrences htokens separated fit, Trace.chainsIn, List.filter_map]
  congr 1
  refine List.filter_congr fun taken htaken => ?_
  rw [htokens] at htaken
  rw [Bool.eq_iff_iff, startsIn_iff (by rwa [map_fst_placed]) trace.placed_increasing htaken,
    ← forall_mem_events_chainOfPath ordered label (of_mem_occurrences htaken).1]
  simp

/-! ## Merging -/

/-- Elements that are sorted into boxes, each into exactly one, are all there. -/
theorem perm_flatMap_filter {α κ : Type} {box : κ → α → Bool} {boxes : List κ}
    (hnodup : boxes.Nodup) {items : List α} (hsome : ∀ item ∈ items, ∃ k ∈ boxes, box k item = true)
    (hone : ∀ j k item, box j item = true → box k item = true → j = k) :
    (boxes.flatMap fun k => items.filter (box k)).Perm items := by
  induction boxes generalizing items with
  | nil =>
      have hnil : items = [] := by
        refine List.eq_nil_iff_forall_not_mem.2 fun item hitem => ?_
        obtain ⟨k, hk, _⟩ := hsome item hitem
        contradiction
      rw [hnil]
      exact List.Perm.refl _
  | cons first boxes ih =>
      obtain ⟨hfirst, hnodup⟩ := List.nodup_cons.1 hnodup
      have hothers : ∀ item ∈ items.filter (!box first ·), ∃ k ∈ boxes, box k item = true := by
        intro item hitem
        obtain ⟨hitem, hnot⟩ := List.mem_filter.1 hitem
        obtain ⟨k, hk, hbox⟩ := hsome item hitem
        rcases List.mem_cons.1 hk with rfl | hk
        · simp [hbox] at hnot
        · exact ⟨k, hk, hbox⟩
      have hrest : (boxes.flatMap fun k => items.filter (box k)) =
          boxes.flatMap fun k => (items.filter (!box first ·)).filter (box k) := by
        refine List.flatMap_congr fun k hk => ?_
        rw [List.filter_filter]
        refine List.filter_congr fun item _ => ?_
        -- what is in a later box is not in the first one
        cases hbox : box k item with
        | false => rfl
        | true =>
            have hnot : box first item = false := by
              refine Bool.eq_false_iff.2 fun h => hfirst ?_
              rwa [hone first k item h hbox]
            simp [hnot]
      rw [List.flatMap_cons, hrest]
      exact ((ih hnodup hothers).append_left _).trans (List.filter_append_perm _ _)

/-- Lists that together have the chains of a pattern are merged to these chains. -/
theorem mergeChains_eq_find (ordered : trace.Ordered) {pattern : Pattern} {label : String}
    {lists : List (List Chain)} (hperm : lists.flatten.Perm (find trace pattern label rule)) :
    trace.mergeChains lists = find trace pattern label rule := by
  have increasing := firstPosition_increasing ordered pattern label rule
  have hsorted : (trace.mergeChains lists).Pairwise fun a b =>
      decide (trace.firstPosition a ≤ trace.firstPosition b) = true :=
    List.pairwise_mergeSort
      (fun a b c hab hbc => by simp only [decide_eq_true_eq] at *; omega)
      (fun a b => by simp only [Bool.or_eq_true, decide_eq_true_eq]; omega) _
  have hmerged : (trace.mergeChains lists).Perm (find trace pattern label rule) :=
    (List.mergeSort_perm _ _).trans hperm
  refine hmerged.eq_of_pairwise (fun a b ha hb hab hba => ?_) hsorted
    (increasing.imp fun hlt => by simpa using Nat.le_of_lt hlt)
  -- chains with the same first position are the same
  simp only [decide_eq_true_eq] at hab hba
  have hnodup : ((find trace pattern label rule).map trace.firstPosition).Nodup :=
    List.pairwise_map.2 (increasing.imp fun hlt => Nat.ne_of_lt hlt)
  exact List.inj_on_of_nodup_map hnodup (hmerged.subset ha) hb (Nat.le_antisymm hab hba)

/-- The chains of a pattern are those of the groups, merged by their first positions. -/
theorem find_eq_mergeChains {pattern : Pattern}
    (htokens : pattern.tokens = .named name edge :: following)
    (separated : Pattern.Separated pattern.tokens) (ordered : trace.Ordered) (fit : trace.KindsFit)
    (within : FlowsWithin group trace.events) (label : String) (rule : RepeatRule) :
    find trace pattern label rule =
      trace.mergeChains ((trace.groups group).map
        (trace.chainsOfGroup pattern label rule group)) := by
  refine (mergeChains_eq_find ordered ?_).symm
  have hperm : ((trace.groups group).flatMap fun g =>
      (occurrences rule pattern.tokens ∅ trace.placed).filter (startsIn group g)).Perm
        (occurrences rule pattern.tokens ∅ trace.placed) := by
    refine perm_flatMap_filter (List.nodup_dedup _) (fun taken htaken => ?_) ?_
    · rw [htokens] at htaken
      obtain ⟨hsublist, _, hne⟩ := of_mem_occurrences htaken
      obtain ⟨start, more, rfl⟩ := List.exists_cons_of_ne_nil hne
      have hevent : start.1 ∈ trace.events := by
        rw [← map_fst_placed]
        exact List.mem_map_of_mem (hsublist.subset List.mem_cons_self)
      exact ⟨group start.1.scope, List.mem_dedup.2 (List.mem_map_of_mem hevent),
        by simp [startsIn]⟩
    · intro g g' taken hg hg'
      cases taken with
      | nil => contradiction
      | cons start more =>
          simp only [startsIn, List.head?_cons, Option.any_some, decide_eq_true_eq] at hg hg'
          exact hg.symm.trans hg'
  have hlists : (trace.groups group).map (trace.chainsOfGroup pattern label rule group) =
      (trace.groups group).map fun g =>
        ((occurrences rule pattern.tokens ∅ trace.placed).filter (startsIn group g)).map
          fun taken => chainOfPath trace label (taken.map Prod.snd) :=
    List.map_congr_left fun g _ =>
      chainsOfGroup_eq htokens separated ordered fit within label rule g
  rw [hlists, find_eq_map_occurrences htokens separated fit, ← List.flatMap_def, ← List.map_flatMap]
  exact hperm.map _

/-- The chains of a compiled pattern are found in groups of scopes: where no flow leaves its group,
they are the chains among the events of each group, merged by the positions of their first events.
Without flows each scope is a group, and the chains in a scope depend on the events of the scope
only. The kinds of the whole trace fit into numbers of 32 bits: otherwise kinds of different groups
could share a number. -/
theorem find_eq_merge {source : String} {pattern : Pattern}
    (h : Pattern.compile source = .ok pattern) (built : trace.Built) (fit : trace.KindsFit)
    (label : String) (rule : RepeatRule) :
    (∀ {ι : Type} [DecidableEq ι] (group : Scope → ι), FlowsWithin group trace.events →
      (∀ g, (trace.part (inGroup group g)).events =
        trace.events.filter fun event => group event.scope = g) ∧
      find trace pattern label rule = trace.mergeChains
        ((trace.groups group).map (trace.chainsOfGroup pattern label rule group))) ∧
    ((∀ event ∈ trace.events, event.phase.isFlow = false) →
      find trace pattern label rule = trace.mergeChains
        ((trace.groups id).map (trace.chainsOfGroup pattern label rule id)) ∧
      ∀ (scope : Scope) (other : Trace), other.Built → other.KindsFit →
        (∀ event ∈ other.events, event.phase.isFlow = false) →
        (other.events.filter fun event => event.scope = scope) =
          (trace.events.filter fun event => event.scope = scope) →
        let own := find (trace.part (inGroup id scope)) pattern label rule
        trace.chainsIn id scope (find trace pattern label rule) =
          own.map (Chain.carried (trace.idsWhere (inGroup id scope))) ∧
        other.chainsIn id scope (find other pattern label rule) =
          own.map (Chain.carried (other.idsWhere (inGroup id scope)))) := by
  obtain ⟨name, edge, following, htokens⟩ := Pattern.tokens_of_compile h
  have separated := Pattern.separated_of_compile h
  have ordered := built.ordered
  constructor
  · intro ι _ group within
    refine ⟨fun g => ?_, find_eq_mergeChains htokens separated ordered fit within label rule⟩
    rw [Trace.events_part ordered.inTime, Trace.entriesWhere, Trace.events, List.filter_map]
    rfl
  · intro hflow
    have within := flowsWithin_of_noFlow hflow id
    refine ⟨find_eq_mergeChains htokens separated ordered fit within label rule, ?_⟩
    intro scope other hbuilt hfit hother hsame own
    constructor
    · exact chainsIn_find htokens separated ordered fit within label rule scope
    · -- the events of the scope alone are the same in both traces
      have hown : own = find (other.part (inGroup id scope)) pattern label rule := by
        show find (trace.part (inGroup id scope)) pattern label rule = _
        rw [Trace.part_inGroup, Trace.part_inGroup]
        exact congrArg (fun events => find (.ofEvents events) pattern label rule) hsame.symm
      rw [hown]
      exact chainsIn_find htokens separated hbuilt.ordered hfit (flowsWithin_of_noFlow hother id)
        label rule scope

/-- Loads of two processes. That of the first one begins in a thread, hands over to another thread
and ends there. -/
def handover : List Event :=
  [⟨"load", .spanBegin, .zero, ⟨1, 1⟩, none, [], Trace.load_ne_empty⟩,
    ⟨"load", .spanBegin, .zero, ⟨2, 1⟩, none, [], Trace.load_ne_empty⟩,
    ⟨"send", .flowBegin, .zero, ⟨1, 1⟩, some 0, [], Trace.send_ne_empty⟩,
    ⟨"send", .flowEnd, .zero, ⟨1, 2⟩, some 0, [], Trace.send_ne_empty⟩,
    ⟨"load", .spanEnd, .zero, ⟨2, 1⟩, none, [], Trace.load_ne_empty⟩,
    ⟨"load", .spanEnd, .zero, ⟨1, 2⟩, none, [], Trace.load_ne_empty⟩]

/-- The events of `Trace.load` with an event of another scope between them. -/
def interrupted : List Event :=
  [⟨"load", .spanBegin, .zero, {}, none, [], Trace.load_ne_empty⟩,
    ⟨"load", .spanEnd, .zero, ⟨1, 1⟩, none, [], Trace.load_ne_empty⟩,
    ⟨"read", .instant, .zero, {}, none, [], Trace.read_ne_empty⟩,
    ⟨"load", .spanEnd, .zero, {}, none, [], Trace.load_ne_empty⟩]

/-- A handover stays in its process, and an event of another scope leaves a load as it is. -/
theorem find_eq_merge_handover :
    let trace := Trace.ofEvents handover
    let other := Trace.ofEvents interrupted
    let own := find (Trace.load.part (inGroup id {})) .load "loads" .noRepeat
    Pattern.compile "load+ * load-" = .ok .load ∧ trace.Built ∧ trace.KindsFit ∧
      FlowsWithin Scope.pid trace.events ∧
      find trace .load "loads" .noRepeat =
        [chainOfPath trace "loads" [0, 2, 3, 5], chainOfPath trace "loads" [1, 4]] ∧
      find trace .load "loads" .noRepeat = trace.mergeChains
        ((trace.groups Scope.pid).map (trace.chainsOfGroup .load "loads" .noRepeat Scope.pid)) ∧
      Trace.load.Built ∧ Trace.load.KindsFit ∧ other.Built ∧ other.KindsFit ∧
      Trace.load.chainsIn id {} (find Trace.load .load "loads" .noRepeat) =
        own.map (Chain.carried (Trace.load.idsWhere (inGroup id {}))) ∧
      other.chainsIn id {} (find other .load "loads" .noRepeat) =
        own.map (Chain.carried (other.idsWhere (inGroup id {}))) := by
  intro trace other own
  have hbuilt : trace.Built := Trace.built_ofEvents handover
  have hother : other.Built := Trace.built_ofEvents interrupted
  have inTime : Trace.EventsInTime handover := by
    unfold Trace.EventsInTime handover
    decide
  have within : FlowsWithin Scope.pid trace.events := by
    rw [show trace.events = handover from Trace.events_ofEvents inTime]
    unfold FlowsWithin handover
    decide
  have hchains : find trace .load "loads" .noRepeat =
      [chainOfPath trace "loads" [0, 2, 3, 5], chainOfPath trace "loads" [1, 4]] :=
    find_ofEvents rfl (Pattern.separated_of_compile Pattern.compile_load) inTime (by decide) "loads"
      .noRepeat
  have hload : Trace.load.events = _ :=
    Trace.events_ofEvents (by unfold Trace.EventsInTime; decide)
  have hmore : other.events = interrupted :=
    Trace.events_ofEvents (by unfold Trace.EventsInTime interrupted; decide)
  have fit : trace.KindsFit := Trace.kindsFit_of_length_le (by decide +kernel)
  have hfit : other.KindsFit := Trace.kindsFit_of_length_le (by decide +kernel)
  obtain ⟨hgroups, _⟩ := find_eq_merge Pattern.compile_load hbuilt fit "loads" .noRepeat
  obtain ⟨_, hscopes⟩ :=
    find_eq_merge Pattern.compile_load Trace.built_load kindsFit_load "loads" .noRepeat
  obtain ⟨_, hown⟩ := hscopes (by rw [hload]; decide)
  exact ⟨Pattern.compile_load, hbuilt, fit, within, hchains, (hgroups Scope.pid within).2,
    Trace.built_load, kindsFit_load, hother, hfit,
    hown {} other hother hfit (by rw [hmore]; decide) (by rw [hload, hmore]; rfl)⟩

end Matching

end EventChains
