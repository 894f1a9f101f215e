import EventChains.Findings
import EventChains.Proofs.Matching.Chains
import EventChains.Proofs.Matching.Span

/-!
# What findings keep

Findings know a chain by its first and its last event, and a chain that is found again only gives
the kept one its label. `Searched` lists the calls that make findings, together with all chains that
they have found; `Searched.kept` says that the events of each of these chains are among those of the
chains that are kept.
-/

namespace EventChains.Findings

open EventChains.Matching

/-- What calls on findings lead to, with the chains found on the way. -/
inductive Searched (trace : Trace) (rule : RepeatRule) : Findings → List Chain → Prop where
  | start : Searched trace rule (start trace rule) []
  | search {findings : Findings} {found : List Chain} (pattern : Pattern) (label : String)
      (h : Searched trace rule findings found) :
      Searched trace rule (findings.search pattern label).1
        (found ++ (findings.search pattern label).2)
  | searchText {findings : Findings} {found : List Chain} (source label : String)
      (h : Searched trace rule findings found) :
      Searched trace rule (findings.searchText source label).1
        (found ++ (findings.searchText source label).2.toOption.getD [])
  | searchAll {findings : Findings} {found : List Chain} (specs : List ChainSpec)
      (h : Searched trace rule findings found) :
      Searched trace rule (findings.searchAll specs).1
        (found ++ (findings.searchAll specs).2.flatten)

/-- The events of each chain. -/
def eventsOf (chains : List Chain) : List (List Nat) :=
  chains.map (·.events)

/-- All chains have been found on the trace, and the places lead to the chains that they are the
places of. -/
structure Sound (trace : Trace) (places : Std.HashMap (Nat × Nat) Nat) (chains : List Chain) :
    Prop where
  found : ∀ chain ∈ chains, Found trace chain
  indexed : ∀ (span : Nat × Nat) place, places[span]? = some place →
    ∃ chain : Chain, chains[place]? = some chain ∧ chain.span? = some span

variable {trace : Trace} {rule : RepeatRule} {places : Std.HashMap (Nat × Nat) Nat}
  {chains found : List Chain} {chain : Chain} {findings : Findings}

/-! ## Adding a chain -/

/-- The span of a chain is its first and its last event. -/
theorem span?_eq_some_iff {first last : Nat} :
    chain.span? = some (first, last) ↔ chain.first? = some first ∧ chain.last? = some last := by
  unfold Chain.span?
  cases chain.first? with
  | none => simp
  | some i =>
      cases chain.last? with
      | none => simp
      | some j => simp

/-- A chain that has been found has a span. -/
theorem exists_span?_of_found (h : Found trace chain) : ∃ span, chain.span? = some span := by
  have hne := h.events_ne_nil
  refine ⟨(chain.events.head hne, chain.events.getLast hne), span?_eq_some_iff.2 ⟨?_, ?_⟩⟩
  · exact List.head?_eq_some_head hne
  · exact List.getLast?_eq_some_getLast hne

/-- A new label changes one chain, and nothing else about it. -/
theorem getElem?_relabel (chains : List Chain) (place : Nat) (label : String) (i : Nat) :
    (relabel chains place label)[i]? =
      chains[i]?.map fun chain => if place = i then { chain with label } else chain := by
  rw [relabel, List.getElem?_modify]
  rfl

/-- A new label changes no events. -/
theorem eventsOf_relabel (chains : List Chain) (place : Nat) (label : String) :
    eventsOf (relabel chains place label) = eventsOf chains := by
  refine List.ext_getElem? fun i => ?_
  rw [eventsOf, eventsOf, List.getElem?_map, List.getElem?_map, getElem?_relabel, Option.map_map]
  refine congrArg (Option.map · _) (funext fun chain => ?_)
  show (if place = i then { chain with label } else chain).events = chain.events
  split <;> rfl

/-- New labels keep the chains found and the places right. -/
theorem Sound.relabel (sound : Sound trace places chains) (place : Nat) (label : String) :
    Sound trace places (relabel chains place label) where
  found chain hchain := by
    obtain ⟨i, hi⟩ := List.mem_iff_getElem?.1 hchain
    rw [getElem?_relabel] at hi
    obtain ⟨old, hold, rfl⟩ := Option.map_eq_some_iff.1 hi
    have hfound := sound.found old (List.mem_of_getElem? hold)
    split
    · obtain ⟨path, hpath, heq⟩ := hfound
      refine ⟨path, hpath, ?_⟩
      rw [heq]
      rfl
    · exact hfound
  indexed span position h := by
    obtain ⟨chain, hchain, hspan⟩ := sound.indexed span position h
    rw [getElem?_relabel, hchain]
    refine ⟨_, rfl, ?_⟩
    split
    · exact hspan
    · exact hspan

/-- A chain that is added has its events among those of the chains that are kept, and no events are
lost. -/
theorem Sound.addChain (ordered : trace.Ordered) (sound : Sound trace places chains)
    (hfound : Found trace chain) :
    Sound trace places (addChain places chains chain) ∧
      eventsOf (chain :: chains) ⊆ eventsOf (addChain places chains chain) := by
  obtain ⟨span, hspan⟩ := exists_span?_of_found hfound
  unfold Findings.addChain
  rw [hspan]
  dsimp only
  cases hplace : places[span]? with
  | none =>
      refine ⟨⟨?_, ?_⟩, ?_⟩
      · intro other hother
        rcases List.mem_append.1 hother with hother | hother
        · exact sound.found other hother
        · exact List.mem_singleton.1 hother ▸ hfound
      · intro span place h
        obtain ⟨other, hother, hspan⟩ := sound.indexed span place h
        have hlt := (List.getElem?_eq_some_iff.1 hother).1
        exact ⟨other, (List.getElem?_append_left hlt).trans hother, hspan⟩
      · simp [eventsOf]
  | some place =>
      refine ⟨sound.relabel place chain.label, ?_⟩
      obtain ⟨kept, hkept, hkeptSpan⟩ := sound.indexed span place hplace
      have hmem := List.mem_of_getElem? hkept
      -- the kept chain has the same first and the same last event, hence the same events
      obtain ⟨hfirst, hlast⟩ := span?_eq_some_iff.1 hspan
      obtain ⟨hkeptFirst, hkeptLast⟩ := span?_eq_some_iff.1 hkeptSpan
      have hevents : kept.events = chain.events :=
        (sound.found kept hmem).events_eq ordered hfound (hkeptFirst.trans hfirst.symm)
          (hkeptLast.trans hlast.symm)
      rw [eventsOf_relabel]
      refine List.cons_subset.2 ⟨?_, List.Subset.refl _⟩
      exact List.mem_map.2 ⟨kept, hmem, hevents⟩

/-- Adding chains one after the other loses no events. -/
theorem Sound.foldl_addChain (ordered : trace.Ordered) (sound : Sound trace places chains)
    (hfound : ∀ chain ∈ found, Found trace chain) :
    Sound trace places (found.foldl (Findings.addChain places) chains) ∧
      eventsOf (chains ++ found) ⊆ eventsOf (found.foldl (Findings.addChain places) chains) := by
  induction found generalizing chains with
  | nil => simpa using sound
  | cons chain rest ih =>
      obtain ⟨hchain, hrest⟩ := List.forall_mem_cons.1 hfound
      obtain ⟨hadded, hkeeps⟩ := sound.addChain ordered hchain
      obtain ⟨hlater, hlaterKeeps⟩ := ih hadded hrest
      refine ⟨hlater, fun events hevents => hlaterKeeps ?_⟩
      simp only [eventsOf, List.map_append, List.map_cons, List.mem_append,
        List.mem_cons] at hevents
      rw [eventsOf, List.map_append, List.mem_append]
      rcases hevents with hevents | rfl | hevents
      · exact Or.inl (hkeeps (List.mem_cons_of_mem _ hevents))
      · exact Or.inl (hkeeps List.mem_cons_self)
      · exact Or.inr hevents

/-! ## Recording -/

/-- A place comes from an entry of the list, or was there before. -/
theorem getElem?_foldl_places {entries : List (Chain × Nat)} {span : Nat × Nat} {place : Nat}
    (h : (entries.foldl (fun places (chain, place) =>
      match chain.span? with
      | some span => places.insert span place
      | none => places) places)[span]? = some place) :
    places[span]? = some place ∨ ∃ chain, (chain, place) ∈ entries ∧ chain.span? = some span := by
  induction entries generalizing places with
  | nil => exact Or.inl h
  | cons entry rest ih =>
      obtain ⟨chain, position⟩ := entry
      rcases ih h with hplace | ⟨other, hmem, hspan⟩
      · dsimp only at hplace
        cases hchain : chain.span? with
        | none =>
            rw [hchain] at hplace
            exact Or.inl hplace
        | some found =>
            rw [hchain] at hplace
            dsimp only at hplace
            rw [Std.HashMap.getElem?_insert] at hplace
            split at hplace
            · rename_i heq
              cases beq_iff_eq.1 heq
              cases hplace
              exact Or.inr ⟨chain, List.mem_cons_self, hchain⟩
            · exact Or.inl hplace
      · exact Or.inr ⟨other, List.mem_cons_of_mem _ hmem, hspan⟩

/-- The places of some chains lead to chains with their spans. -/
theorem indexed_placesOf (chains : List Chain) :
    ∀ (span : Nat × Nat) place, (placesOf chains)[span]? = some place →
      ∃ chain : Chain, chains[place]? = some chain ∧ chain.span? = some span := by
  intro span place h
  rcases getElem?_foldl_places h with hplace | ⟨chain, hmem, hspan⟩
  · simp at hplace
  · exact ⟨chain, List.mem_zipIdx_iff_getElem?.1 hmem, hspan⟩

/-- Recording chains loses no events. -/
theorem Sound.record (ordered : trace.Ordered) (sound : Sound trace findings.places findings.chains)
    (hfound : ∀ chain ∈ found, Found trace chain) :
    Sound trace (findings.record found).places (findings.record found).chains ∧
      eventsOf (findings.chains ++ found) ⊆ eventsOf (findings.record found).chains := by
  obtain ⟨hadded, hkeeps⟩ := sound.foldl_addChain ordered hfound
  unfold Findings.record
  dsimp only
  split
  · -- sorting moves the chains, so their places are taken anew
    have hperm := List.mergeSort_perm (found.foldl (Findings.addChain findings.places)
      findings.chains) inOrder
    refine ⟨⟨fun chain hchain => hadded.found chain (hperm.mem_iff.1 hchain),
      indexed_placesOf _⟩, ?_⟩
    exact List.Subset.trans hkeeps (hperm.symm.map _).subset
  · exact ⟨hadded, hkeeps⟩

/-! ## Calls -/

/-- Findings on a trace that have kept the events of some chains. -/
structure Keeps (trace : Trace) (rule : RepeatRule) (findings : Findings) (found : List Chain) :
    Prop where
  trace_eq : findings.trace = trace
  course_eq : findings.course = .ofTrace trace
  rule_eq : findings.rule = rule
  sound : Sound trace findings.places findings.chains
  kept : eventsOf found ⊆ eventsOf findings.chains

/-- Recording chains changes neither the trace nor the rule. -/
theorem record_eq (findings : Findings) (found : List Chain) :
    (findings.record found).trace = findings.trace ∧
      (findings.record found).course = findings.course ∧
      (findings.record found).rule = findings.rule := by
  unfold Findings.record
  dsimp only
  split <;> exact ⟨rfl, rfl, rfl⟩

theorem keeps_start (trace : Trace) (rule : RepeatRule) :
    Keeps trace rule (start trace rule) [] where
  trace_eq := rfl
  course_eq := rfl
  rule_eq := rfl
  sound := ⟨fun _ h => by contradiction, fun span place h => by simp [start] at h⟩
  kept := List.Subset.refl _

/-- Recorded chains are kept, and so are all that were kept before. -/
theorem Keeps.record (ordered : trace.Ordered) {more : List Chain}
    (keeps : Keeps trace rule findings found) (hmore : ∀ chain ∈ more, Found trace chain) :
    Keeps trace rule (findings.record more) (found ++ more) := by
  obtain ⟨htrace, hcourse, hrule⟩ := record_eq findings more
  obtain ⟨sound, hkept⟩ := keeps.sound.record ordered hmore
  refine ⟨htrace.trans keeps.trace_eq, hcourse.trans keeps.course_eq, hrule.trans keeps.rule_eq,
    sound, List.Subset.trans ?_ hkept⟩
  rw [eventsOf, eventsOf, List.map_append, List.map_append]
  exact List.append_subset.2 ⟨List.Subset.trans keeps.kept (List.subset_append_left _ _),
    List.subset_append_right _ _⟩

/-- The same holds for chains that are recorded list by list. -/
theorem Keeps.foldl_record (ordered : trace.Ordered) {lists : List (List Chain)}
    (keeps : Keeps trace rule findings found)
    (hlists : ∀ list ∈ lists, ∀ chain ∈ list, Found trace chain) :
    Keeps trace rule (lists.foldl Findings.record findings) (found ++ lists.flatten) := by
  induction lists generalizing findings found with
  | nil => simpa using keeps
  | cons list rest ih =>
      obtain ⟨hlist, hrest⟩ := List.forall_mem_cons.1 hlists
      have := ih (keeps.record ordered hlist) hrest
      rwa [List.append_assoc] at this

/-- Findings match patterns on their own trace. -/
theorem Keeps.findOn_eq (keeps : Keeps trace rule findings found) (pattern : Pattern)
    (label : String) :
    findOn findings.trace findings.course pattern label findings.rule =
      find trace pattern label rule := by
  rw [keeps.trace_eq, keeps.course_eq, keeps.rule_eq]
  rfl

theorem Keeps.search (ordered : trace.Ordered) (keeps : Keeps trace rule findings found)
    (pattern : Pattern) (label : String) :
    Keeps trace rule (findings.search pattern label).1
      (found ++ (findings.search pattern label).2) := by
  refine keeps.record ordered fun chain hchain => ?_
  rw [keeps.findOn_eq] at hchain
  exact found_of_mem_find hchain

/-- No call loses the events of a chain. -/
theorem Searched.keeps (ordered : trace.Ordered) (searched : Searched trace rule findings found) :
    Keeps trace rule findings found := by
  induction searched with
  | start => exact keeps_start trace rule
  | search pattern label _ ih => exact ih.search ordered pattern label
  | searchText source label _ ih =>
      unfold Findings.searchText
      split
      · simpa [Except.toOption] using ih
      · rename_i pattern _
        exact ih.search ordered pattern label
  | searchAll specs _ ih =>
      refine ih.foldl_record ordered fun list hlist chain hchain => ?_
      obtain ⟨spec, _, rfl⟩ := List.mem_map.1 hlist
      rw [ih.findOn_eq] at hchain
      exact found_of_mem_find hchain

/-- Chains that have been found on a trace and have the same first and the same last event have the
same events, so findings keep the events of each chain that they have found. -/
theorem events_eq_of_ends_eq (built : trace.Built) :
    (∀ pattern label rule, ∀ chain ∈ find trace pattern label rule, Found trace chain) ∧
      (∀ a b, Found trace a → Found trace b → a.first? = b.first? → a.last? = b.last? →
        a.events = b.events) ∧
      ∀ rule findings found, Searched trace rule findings found →
        ∀ chain ∈ found, ∃ kept ∈ findings.chains, kept.events = chain.events := by
  have ordered := built.ordered
  refine ⟨fun pattern label rule chain hchain => found_of_mem_find hchain,
    fun a b ha hb hfirst hlast => ha.events_eq ordered hb hfirst hlast, ?_⟩
  intro rule findings found searched chain hchain
  exact List.mem_map.1 ((searched.keeps ordered).kept (List.mem_map_of_mem hchain))

/-- A load is found under both rules with the same events, and findings keep it. -/
theorem events_eq_of_ends_eq_load :
    let strict := chainOfPath .load "strict" [0, 1, 2]
    let loose := chainOfPath .load "loose" [0, 1, 2]
    Trace.load.Built ∧ Found .load strict ∧ Found .load loose ∧ strict.first? = loose.first? ∧
      strict.last? = loose.last? ∧ strict.events = loose.events ∧
      ∃ kept ∈ ((start .load .noRepeat).search .load "strict").1.chains,
        kept.events = strict.events := by
  intro strict loose
  obtain ⟨hfound, hevents, hkept⟩ := events_eq_of_ends_eq Trace.built_load
  have hmem : strict ∈ find .load .load "strict" .noRepeat :=
    List.mem_map_of_mem (load_mem_find .noRepeat)
  have hstrict : Found .load strict := hfound .load "strict" .noRepeat strict hmem
  have hloose : Found .load loose :=
    hfound .load "loose" .unrestricted loose (List.mem_map_of_mem (load_mem_find .unrestricted))
  refine ⟨Trace.built_load, hstrict, hloose, rfl, rfl,
    hevents strict loose hstrict hloose rfl rfl, ?_⟩
  exact hkept .noRepeat _ _ (.search .load "strict" .start) strict hmem

end EventChains.Findings
