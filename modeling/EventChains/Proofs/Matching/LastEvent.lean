import EventChains.Proofs.Matching.Parts
import EventChains.Proofs.Matching.Starts

/-!
# An event at the end of a trace

An event that comes last can complete a walk that has found no occurrence so far, and such an
occurrence claims events that later ones could use. Where there are no flows it takes all events of
its scope from its start on, and then no occurrence starts among them, since it would have allowed
a shorter one (`not_satisfies_between`). So an event at the end adds at most one occurrence
(`occurrences_concat`) and at most one chain (`find_add_of_last`).
-/

namespace EventChains.Matching

variable {rule : RepeatRule} {tokens following : List Token} {name : String} {edge : Edge}
  {claimed claimed' : Finset Nat} {start last : Placed} {later rest more taken other : List Placed}

/-! ## Longer walks -/

/-- A walk goes on from what is in view at the end. -/
theorem View.walk_append (view : View) (rest more : List Placed) :
    ∃ reached : View, view.walk (rest ++ more) = view.walk rest ++ reached.walk more := by
  induction rest generalizing view with
  | nil => exact ⟨view, rfl⟩
  | cons head tail ih =>
      rw [List.cons_append, View.walk, View.walk]
      split
      · obtain ⟨reached, hreached⟩ := ih (view.after head.1)
        exact ⟨reached, by rw [hreached, List.cons_append]⟩
      · exact ih view

/-- An occurrence stays when events are added at the end. -/
theorem occurrenceAt?_append
    (h : occurrenceAt? rule (.named name edge :: following) claimed start later = some taken)
    (more : List Placed) :
    occurrenceAt? rule (.named name edge :: following) claimed start (later ++ more) =
      some taken := by
  obtain ⟨reached, hwalk⟩ := (View.start start.1).walk_append later more
  refine occurrenceAt?_of_isPrefix h ?_
  rw [hwalk, ← List.cons_append]
  exact (spec_of_occurrenceAt? h).1.trans (List.prefix_append _ _)

/-- An occurrence that a last event makes possible is the whole walk. -/
theorem eq_of_occurrenceAt?_concat
    (hnone : occurrenceAt? rule (.named name edge :: following) claimed start later = none)
    (h : occurrenceAt? rule (.named name edge :: following) claimed start (later ++ [last]) =
      some taken) :
    taken = start :: (View.start start.1).walk later ++ [last] := by
  obtain ⟨reached, hwalk⟩ := (View.start start.1).walk_append later [last]
  have hpre := (spec_of_occurrenceAt? h).1
  rw [hwalk, ← List.cons_append] at hpre
  -- an occurrence without the last event would have been found before
  have hnot : ¬ taken <+: start :: (View.start start.1).walk later := by
    intro hshort
    rw [occurrenceAt?_of_isPrefix h hshort] at hnone
    contradiction
  rcases List.sublist_singleton.1 (reached.walk_sublist [last]) with hend | hend
  · rw [hend, List.append_nil] at hpre
    exact absurd hpre hnot
  · rw [hend] at hpre
    exact (List.prefix_concat_iff.1 hpre).resolve_right hnot

/-- A last event that is claimed changes nothing. -/
theorem occurrenceAt?_concat_of_claimed (hclaimed : last.2 ∈ claimed) :
    occurrenceAt? rule (.named name edge :: following) claimed start (later ++ [last]) =
      occurrenceAt? rule (.named name edge :: following) claimed start later := by
  cases hat : occurrenceAt? rule (.named name edge :: following) claimed start later with
  | some taken => exact occurrenceAt?_append hat [last]
  | none =>
      refine Option.eq_none_iff_forall_ne_some.2 fun taken htaken => ?_
      have heq := eq_of_occurrenceAt?_concat hat htaken
      have hlast : last ∈ taken := by simp [heq]
      exact (spec_of_occurrenceAt? htaken).2.1 last hlast hclaimed

theorem occurrences_concat_of_claimed (hclaimed : last.2 ∈ claimed) :
    occurrences rule (.named name edge :: following) claimed (rest ++ [last]) =
      occurrences rule (.named name edge :: following) claimed rest := by
  induction rest generalizing claimed with
  | nil => exact occurrences_of_none (occurrenceAt?_of_claimed hclaimed)
  | cons start later ih =>
      have hconcat : occurrenceAt? rule (.named name edge :: following) claimed start
          (later ++ [last]) = _ := occurrenceAt?_concat_of_claimed hclaimed
      rw [List.cons_append]
      cases hat : occurrenceAt? rule (.named name edge :: following) claimed start later with
      | none => rw [occurrences_of_none hat, occurrences_of_none (hconcat.trans hat), ih hclaimed]
      | some taken =>
          rw [occurrences_of_some hat, occurrences_of_some (hconcat.trans hat),
            ih (Finset.mem_union_left _ hclaimed)]

/-! ## Walks without flows -/

/-- Where there are no flows, a walk goes through the events of its scope. -/
theorem walk_of_noFlow (first : Event)
    (hflow : ∀ placed ∈ rest, placed.1.phase.isFlow = false) :
    (View.start first).walk rest = rest.filter fun placed => placed.1.scope = first.scope := by
  induction rest with
  | nil => rfl
  | cons head tail ih =>
      obtain ⟨hhead, hflow⟩ := List.forall_mem_cons.1 hflow
      have hsees : (View.start first).Sees head.1 ↔ head.1.scope = first.scope := by
        simp [View.Sees, View.start]
      have hafter : (View.start first).after head.1 = View.start first := by
        unfold View.after
        split <;> simp_all [Phase.isFlow]
      rw [View.walk, hafter, ih hflow]
      by_cases hscope : head.1.scope = first.scope
      · rw [if_pos (hsees.2 hscope), List.filter_cons_of_pos (by simpa using hscope)]
      · rw [if_neg (mt hsees.1 hscope), List.filter_cons_of_neg (by simpa using hscope)]

theorem cons_walk_of_noFlow (start : Placed)
    (hflow : ∀ placed ∈ later, placed.1.phase.isFlow = false) :
    start :: (View.start start.1).walk later =
      (start :: later).filter fun placed => placed.1.scope = start.1.scope := by
  rw [walk_of_noFlow start.1 hflow, List.filter_cons_of_pos (by simp)]

/-- Where no events of a scope satisfy the tokens, no occurrence starts in the scope. -/
theorem occurrenceAt?_of_not_satisfies
    (hflow : ∀ placed ∈ later, placed.1.phase.isFlow = false)
    (hnone : ∀ other,
      other <:+: ((start :: later).filter fun placed => placed.1.scope = start.1.scope) →
        ¬ Satisfies rule (.named name edge :: following) other) :
    occurrenceAt? rule (.named name edge :: following) claimed start later = none := by
  refine Option.eq_none_iff_forall_ne_some.2 fun taken htaken => ?_
  have hpre := (spec_of_occurrenceAt? htaken).1
  rw [cons_walk_of_noFlow start hflow] at hpre
  exact hnone taken hpre.isInfix (occurrenceAt?_eq_some_iff.1 htaken).satisfies

/-- Between the ends of an occurrence no events satisfy the tokens. -/
theorem not_satisfies_between
    (h : occurrenceAt? rule (.named name edge :: following) claimed start later = some taken)
    {between : List Placed} (htaken : taken = start :: between ++ [last])
    (hother : other <:+: between) : ¬ Satisfies rule (.named name edge :: following) other := by
  intro hsatisfies
  obtain ⟨before, after, rfl⟩ := hother
  have hshortest : shortest? rule (.named name edge :: following) taken = some taken :=
    shortest?_eq_some_iff.2
      ((occurrenceAt?_eq_some_iff.1 h).of_isPrefix (List.prefix_refl taken))
  -- events that come later and satisfy the tokens bound the length of the occurrence
  have hdrop : other <+: taken.drop (before.length + 1) := by
    rw [htaken]
    simp [List.append_assoc]
  have hle := length_le_of_shortest? hshortest hdrop hsatisfies
  rw [htaken] at hle
  simp only [List.length_append, List.length_cons, List.length_nil] at hle
  omega

/-- Where no events of a scope satisfy the tokens, all of them may be claimed. -/
theorem occurrences_of_scope_claimed (scope : Scope)
    (hflow : ∀ placed ∈ rest, placed.1.phase.isFlow = false)
    (hnone : ∀ other, other <:+: (rest.filter fun placed => placed.1.scope = scope) →
      ¬ Satisfies rule (.named name edge :: following) other)
    (hclaimed : ∀ placed ∈ rest,
      placed.2 ∈ claimed' ↔ placed.2 ∈ claimed ∨ placed.1.scope = scope) :
    occurrences rule (.named name edge :: following) claimed' rest =
      occurrences rule (.named name edge :: following) claimed rest := by
  induction rest generalizing claimed claimed' with
  | nil => rfl
  | cons start later ih =>
      obtain ⟨hstart, hlater⟩ := List.forall_mem_cons.1 hclaimed
      have hnoFlow := (List.forall_mem_cons.1 hflow).2
      have hnoneLater : ∀ other, other <:+: (later.filter fun placed => placed.1.scope = scope) →
          ¬ Satisfies rule (.named name edge :: following) other := fun other hother =>
        hnone other (hother.trans ((List.suffix_cons start later).filter _).isInfix)
      by_cases hscope : start.1.scope = scope
      · -- a walk in the scope finds no occurrence, so that it is claimed makes no difference
        have hat : occurrenceAt? rule (.named name edge :: following) claimed start later =
            none := by
          refine occurrenceAt?_of_not_satisfies hnoFlow ?_
          rwa [hscope]
        rw [occurrences_of_none hat,
          occurrences_of_none (occurrenceAt?_of_claimed (hstart.2 (Or.inr hscope)))]
        exact ih hnoFlow hnoneLater hlater
      · -- a walk in another scope meets no event of the scope
        have hsame : occurrenceAt? rule (.named name edge :: following) claimed' start later =
            occurrenceAt? rule (.named name edge :: following) claimed start later := by
          refine occurrenceAt?_congr fun placed hplaced => ?_
          rw [cons_walk_of_noFlow start hnoFlow] at hplaced
          obtain ⟨hplaced, hother⟩ := List.mem_filter.1 hplaced
          rw [hclaimed placed hplaced, of_decide_eq_true hother]
          exact or_iff_left hscope
        cases hat : occurrenceAt? rule (.named name edge :: following) claimed start later with
        | none =>
            rw [occurrences_of_none hat, occurrences_of_none (hsame.trans hat)]
            exact ih hnoFlow hnoneLater hlater
        | some taken =>
            rw [occurrences_of_some hat, occurrences_of_some (hsame.trans hat)]
            refine congrArg (taken :: ·) (ih hnoFlow hnoneLater fun placed hplaced => ?_)
            rw [Finset.mem_union, Finset.mem_union, hlater placed hplaced, or_right_comm]

/-! ## One more occurrence -/

/-- An occurrence that a last event makes possible comes before those that there were. -/
theorem occurrences_concat_of_new (hflow : ∀ placed ∈ later, placed.1.phase.isFlow = false)
    (increasing : (start :: later ++ [last]).Pairwise fun a b => a.2 < b.2)
    (hnone : occurrenceAt? rule (.named name edge :: following) claimed start later = none)
    (h : occurrenceAt? rule (.named name edge :: following) claimed start (later ++ [last]) =
      some taken) :
    occurrences rule (.named name edge :: following) claimed (start :: later ++ [last]) =
      taken :: occurrences rule (.named name edge :: following) claimed (start :: later) := by
  have htaken := eq_of_occurrenceAt?_concat hnone h
  have hwalk := walk_of_noFlow start.1 hflow
  have hlast : last ∈ taken := by simp [htaken]
  rw [List.cons_append, occurrences_of_some h, occurrences_of_none hnone,
    occurrences_concat_of_claimed
      (Finset.mem_union_right _ (mem_positions.2 ⟨last, hlast, rfl⟩))]
  -- all later events of the scope are claimed, and no occurrence started at one of them
  refine congrArg (taken :: ·) (occurrences_of_scope_claimed start.1.scope hflow
    (fun other hother => ?_) fun placed hplaced => ?_)
  · rw [← hwalk] at hother
    exact not_satisfies_between h htaken hother
  · rw [Finset.mem_union, mem_positions, htaken, hwalk]
    refine or_congr_right ⟨?_, fun hscope => ?_⟩
    · rintro ⟨found, hfound, heq⟩
      have hafter := (List.pairwise_append.1 increasing).2.2 placed
        (List.mem_cons_of_mem _ hplaced) last List.mem_cons_self
      have hbefore := (List.pairwise_cons.1 increasing).1 placed
        (List.mem_append_left _ hplaced)
      rcases List.mem_append.1 hfound with hfound | hfound
      · rcases List.mem_cons.1 hfound with rfl | hfound
        · omega
        · obtain ⟨hfound, hscope⟩ := List.mem_filter.1 hfound
          rw [← eq_of_position_eq increasing.of_cons (List.mem_append_left _ hfound)
            (List.mem_append_left _ hplaced) heq]
          simpa using hscope
      · rw [List.mem_singleton.1 hfound] at heq
        omega
    · exact ⟨placed, by simp [hplaced, hscope], rfl⟩

/-- Whether a list has at most one element more than another one, and that element a property. -/
def AddsOne {α : Type} (added : α → Prop) (old new : List α) : Prop :=
  new = old ∨ ∃ before item after,
    old = before ++ after ∧ new = before ++ item :: after ∧ added item

theorem AddsOne.cons {α : Type} {added : α → Prop} {old new : List α} (h : AddsOne added old new)
    (item : α) : AddsOne added (item :: old) (item :: new) := by
  rcases h with rfl | ⟨before, one, after, rfl, rfl, hone⟩
  · exact Or.inl rfl
  · exact Or.inr ⟨item :: before, one, after, rfl, rfl, hone⟩

theorem AddsOne.map {α β : Type} {added : α → Prop} {added' : β → Prop} {old new : List α}
    (h : AddsOne added old new) {f : α → β} (hadded : ∀ item, added item → added' (f item)) :
    AddsOne added' (old.map f) (new.map f) := by
  rcases h with rfl | ⟨before, one, after, rfl, rfl, hone⟩
  · exact Or.inl rfl
  · refine Or.inr ⟨before.map f, f one, after.map f, List.map_append, ?_, hadded one hone⟩
    rw [List.map_append, List.map_cons]

/-- Without flows an event at the end adds at most one occurrence, which ends with the event. -/
theorem occurrences_concat (hflow : ∀ placed ∈ rest, placed.1.phase.isFlow = false)
    (increasing : (rest ++ [last]).Pairwise fun a b => a.2 < b.2) (hfree : last.2 ∉ claimed) :
    AddsOne (fun taken => taken.getLast? = some last)
      (occurrences rule (.named name edge :: following) claimed rest)
      (occurrences rule (.named name edge :: following) claimed (rest ++ [last])) := by
  induction rest generalizing claimed with
  | nil =>
      cases hat : occurrenceAt? rule (.named name edge :: following) claimed last [] with
      | none => exact Or.inl (occurrences_of_none hat)
      | some taken =>
          obtain ⟨hpre, _, more, rfl⟩ := spec_of_occurrenceAt? hat
          have hnil : more = [] := List.prefix_nil.1 ((List.prefix_cons_inj last).1 hpre)
          refine Or.inr ⟨[], [last], [], rfl, ?_, rfl⟩
          rw [hnil] at hat
          exact occurrences_of_some hat
  | cons start later ih =>
      have hlater := (List.forall_mem_cons.1 hflow).2
      cases hat : occurrenceAt? rule (.named name edge :: following) claimed start later with
      | some taken =>
          rw [List.cons_append, occurrences_of_some hat,
            occurrences_of_some (occurrenceAt?_append hat [last])]
          refine (ih hlater increasing.of_cons ?_).cons taken
          -- the last event is not one of an occurrence that was there before
          rw [Finset.mem_union, not_or]
          refine ⟨hfree, fun hmem => ?_⟩
          obtain ⟨placed, hplaced, heq⟩ := mem_positions.1 hmem
          have hsublist := ((View.start start.1).walk_sublist later).cons_cons start
          have hlt := (List.pairwise_append.1 increasing).2.2 placed
            (hsublist.subset ((spec_of_occurrenceAt? hat).1.subset hplaced)) last
            List.mem_cons_self
          omega
      | none =>
          cases hmore : occurrenceAt? rule (.named name edge :: following) claimed start
              (later ++ [last]) with
          | none =>
              rw [List.cons_append, occurrences_of_none hat, occurrences_of_none hmore]
              exact ih hlater increasing.of_cons hfree
          | some taken =>
              refine Or.inr ⟨[], taken, _, rfl,
                occurrences_concat_of_new hlater increasing hat hmore, ?_⟩
              rw [eq_of_occurrenceAt?_concat hat hmore]
              exact List.getLast?_concat

/-! ## One more chain -/

variable {trace : Trace} {event : Event} {path : List Nat}

/-- An event that no event is later than stands after all events. -/
theorem placed_add_of_last (ordered : trace.Ordered)
    (hlast : ∀ earlier ∈ trace.events, earlier.time ≤ event.time) :
    (trace.add event).placed = trace.placed ++ [(event, trace.order.size)] := by
  rw [Trace.placed, Trace.events, Trace.toList_order_add_of_last ordered.inTime hlast,
    List.map_append, List.zipIdx_append, Trace.placed,
    Trace.events, List.length_map, Array.length_toList, Nat.zero_add]
  rfl

/-- The chains of a trace are chains of the longer one. -/
theorem chainOfPath_add_of_last (ordered : trace.Ordered)
    (hlast : ∀ earlier ∈ trace.events, earlier.time ≤ event.time) (label : String)
    (hpath : ∀ i ∈ path, i < trace.order.size) :
    chainOfPath (trace.add event) label path = chainOfPath trace label path := by
  refine congrArg (Chain.ofEntries label) (List.filterMap_congr fun i hi => ?_)
  rw [← Array.getElem?_toList, Trace.toList_order_add_of_last ordered.inTime hlast,
    List.getElem?_append_left (by simpa using hpath i hi), Array.getElem?_toList]

/-- A chain ends with the event at its last position. -/
theorem last?_chainOfPath (label : String) {i id : Nat} (hi : path.getLast? = some i)
    (hid : trace.ids[i]? = some id) : (chainOfPath trace label path).last? = some id := by
  obtain ⟨before, rfl⟩ := List.getLast?_eq_some_iff.1 hi
  rw [Chain.last?, events_chainOfPath, List.filterMap_append, List.filterMap_cons, hid]
  exact List.getLast?_concat

/-- An event that no event is later than has its id at the last position. -/
theorem getElem?_ids_add_of_last (ordered : trace.Ordered)
    (hlast : ∀ earlier ∈ trace.events, earlier.time ≤ event.time) :
    (trace.add event).ids[trace.order.size]? = some trace.nextId := by
  rw [Trace.ids, Trace.toList_order_add_of_last ordered.inTime hlast, List.map_append,
    List.getElem?_append_right (by simp)]
  simp [Trace.nextId]

/-- The events of a trace are among those of the longer one. -/
theorem kindsFit_of_add (fit : (trace.add event).KindsFit) (ordered : trace.Ordered)
    (hlast : ∀ earlier ∈ trace.events, earlier.time ≤ event.time) : trace.KindsFit := by
  refine fit.of_subset ?_
  rw [Trace.events, Trace.events, Trace.toList_order_add_of_last ordered.inTime hlast,
    List.map_append]
  exact List.subset_append_left _ _

/-- An event that no event is later than adds at most one chain, which ends with the event. -/
theorem addsOne_find {pattern : Pattern} (htokens : pattern.tokens = .named name edge :: following)
    (separated : Pattern.Separated pattern.tokens) (ordered : trace.Ordered)
    (hflow : ∀ earlier ∈ trace.events, earlier.phase.isFlow = false)
    (hlast : ∀ earlier ∈ trace.events, earlier.time ≤ event.time)
    (fit : (trace.add event).KindsFit) (label : String) (rule : RepeatRule) :
    AddsOne (fun chain => chain.last? = some trace.nextId) (find trace pattern label rule)
      (find (trace.add event) pattern label rule) := by
  have hold : find trace pattern label rule = (occurrences rule pattern.tokens ∅ trace.placed).map
      fun taken => chainOfPath (trace.add event) label (taken.map Prod.snd) := by
    rw [find_eq_map_occurrences htokens separated (kindsFit_of_add fit ordered hlast)]
    refine List.map_congr_left fun taken htaken => ?_
    rw [htokens] at htaken
    refine (chainOfPath_add_of_last ordered hlast label fun i hi => ?_).symm
    rw [← List.mem_range, ← map_snd_placed]
    exact ((of_mem_occurrences htaken).1.map Prod.snd).subset hi
  have hnoFlow : ∀ placed ∈ trace.placed, placed.1.phase.isFlow = false := by
    rw [← map_fst_placed] at hflow
    exact List.forall_mem_map.1 hflow
  have increasing := (trace.add event).placed_increasing
  rw [placed_add_of_last ordered hlast] at increasing
  rw [hold, find_eq_map_occurrences htokens separated fit, placed_add_of_last ordered hlast,
    htokens]
  refine (occurrences_concat hnoFlow increasing (Finset.notMem_empty _)).map fun taken htaken =>
    last?_chainOfPath label ?_ (getElem?_ids_add_of_last ordered hlast)
  rw [List.getLast?_map, htaken]
  rfl

/-- An event that no event is later than keeps the chains of a compiled pattern in a trace without
flows. At most one chain is added, which ends with the event, at its place in the order of the
first events. The kinds of all events, the last one included, fit into numbers of 32 bits. -/
theorem find_add_of_last {source : String} {pattern : Pattern}
    (h : Pattern.compile source = .ok pattern) (built : trace.Built)
    (hflow : ∀ earlier ∈ trace.events, earlier.phase.isFlow = false)
    (hlast : ∀ earlier ∈ trace.events, earlier.time ≤ event.time)
    (fit : (trace.add event).KindsFit) (label : String) (rule : RepeatRule) :
    let longer := trace.add event
    find longer pattern label rule = find trace pattern label rule ∨
      ∃ before chain after,
        find trace pattern label rule = before ++ after ∧
        find longer pattern label rule = before ++ chain :: after ∧
        chain.last? = some trace.nextId ∧
        (∀ other ∈ before, longer.firstPosition other < longer.firstPosition chain) ∧
        ∀ other ∈ after, longer.firstPosition chain < longer.firstPosition other := by
  obtain ⟨name, edge, following, htokens⟩ := Pattern.tokens_of_compile h
  have separated := Pattern.separated_of_compile h
  intro longer
  rcases addsOne_find htokens separated built.ordered hflow hlast fit label rule with
    hsame | ⟨before, chain, after, hbefore, hafter, hend⟩
  · exact Or.inl hsame
  · have increasing := firstPosition_increasing (built.add event).ordered pattern label rule
    rw [hafter, List.pairwise_append, List.pairwise_cons] at increasing
    obtain ⟨_, ⟨hmore, _⟩, hcross⟩ := increasing
    exact Or.inr ⟨before, chain, after, hbefore, hafter, hend,
      fun other hother => hcross other hother chain List.mem_cons_self, hmore⟩

/-- The begin of a load and a read in it. -/
def opened : List Event :=
  [⟨"load", .spanBegin, .zero, {}, none, [], Trace.load_ne_empty⟩,
    ⟨"read", .instant, .zero, {}, none, [], Trace.read_ne_empty⟩]

/-- The end of a load adds the chain of the load. -/
theorem find_add_of_last_load :
    let trace := Trace.ofEvents opened
    let last : Event := ⟨"load", .spanEnd, .zero, {}, none, [], by decide⟩
    let longer := trace.add last
    Pattern.compile "load+ * load-" = .ok .load ∧ trace.Built ∧
      (∀ earlier ∈ trace.events, earlier.phase.isFlow = false) ∧
      (∀ earlier ∈ trace.events, earlier.time ≤ last.time) ∧ longer.KindsFit ∧
      find trace .load "loads" .noRepeat = [] ∧
      find longer .load "loads" .noRepeat = [chainOfPath longer "loads" [0, 1, 2]] ∧
      (find longer .load "loads" .noRepeat = find trace .load "loads" .noRepeat ∨
        ∃ before chain after,
          find trace .load "loads" .noRepeat = before ++ after ∧
          find longer .load "loads" .noRepeat = before ++ chain :: after ∧
          chain.last? = some trace.nextId ∧
          (∀ other ∈ before, longer.firstPosition other < longer.firstPosition chain) ∧
          ∀ other ∈ after, longer.firstPosition chain < longer.firstPosition other) := by
  intro trace last longer
  have built : trace.Built := Trace.built_ofEvents opened
  have separated := Pattern.separated_of_compile Pattern.compile_load
  have inTime : Trace.EventsInTime opened := by
    unfold Trace.EventsInTime opened
    decide
  have hevents : trace.events = opened := Trace.events_ofEvents inTime
  have hflow : ∀ earlier ∈ trace.events, earlier.phase.isFlow = false := by
    rw [hevents]
    decide
  have hlast : ∀ earlier ∈ trace.events, earlier.time ≤ last.time := by
    rw [hevents]
    decide
  have hnone : find trace .load "loads" .noRepeat = [] :=
    find_ofEvents rfl separated inTime (by decide) "loads" .noRepeat
  have hinTime : Trace.EventsInTime (opened ++ [last]) := by
    unfold Trace.EventsInTime opened
    decide
  have hone : find longer .load "loads" .noRepeat = [chainOfPath longer "loads" [0, 1, 2]] :=
    find_ofEvents rfl separated hinTime (by decide) "loads" .noRepeat
  have fit : longer.KindsFit := Trace.kindsFit_of_length_le (by decide +kernel)
  exact ⟨Pattern.compile_load, built, hflow, hlast, fit, hnone, hone,
    find_add_of_last Pattern.compile_load built hflow hlast fit "loads" .noRepeat⟩

end EventChains.Matching
