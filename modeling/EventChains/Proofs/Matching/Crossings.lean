import EventChains.Proofs.Matching.Growth
import EventChains.Proofs.Matching.Parts

/-!
# How chains enter scopes

What is in view of a walk goes back to the events that it has taken (`Tracks`): every scope in view
is the scope of one of them, and every flow in view was begun by one of them and has not ended
since, on the walk or beside it. So a chain enters a new scope only at the end of a flow that it is
inside (`find_enters_by_flows`).
-/

namespace EventChains

open Matching

/-- Something stands in a list, and nothing after it has a property. -/
def NoneSince {α : Type} (p : α → Prop) (a : α) (items : List α) : Prop :=
  ∃ before since, items = before ++ a :: since ∧ ∀ b ∈ since, ¬ p b

section NoneSince

variable {α β : Type} {p : α → Prop} {a b : α} {items : List α}

theorem noneSince_last (p : α → Prop) (a : α) (items : List α) : NoneSince p a (items ++ [a]) :=
  ⟨items, [], rfl, by simp⟩

theorem NoneSince.mem (h : NoneSince p a items) : a ∈ items := by
  obtain ⟨before, since, rfl, _⟩ := h
  simp

/-- An element without the property may follow. -/
theorem NoneSince.concat (h : NoneSince p a items) (hb : ¬ p b) : NoneSince p a (items ++ [b]) := by
  obtain ⟨before, since, rfl, hsince⟩ := h
  refine ⟨before, since ++ [b], by simp, fun c hc => ?_⟩
  rcases List.mem_append.1 hc with hc | hc
  · exact hsince c hc
  · rwa [List.mem_singleton.1 hc]

/-- Nothing since has a property that only the elements with another one get. -/
theorem NoneSince.map {q : β → Prop} {f : α → β} (h : NoneSince p a items)
    (hq : ∀ b ∈ items, q (f b) → p b) : NoneSince q (f a) (items.map f) := by
  obtain ⟨before, since, rfl, hsince⟩ := h
  refine ⟨before.map f, since.map f, by simp, fun c hc hqc => ?_⟩
  obtain ⟨b, hb, rfl⟩ := List.mem_map.1 hc
  exact hsince b hb (hq b (by simp [hb]) hqc)

end NoneSince

namespace Event

/-- Whether an event begins a flow. -/
def Begins (key : FlowKey) (event : Event) : Prop :=
  event.phase = .flowBegin ∧ event.flowKey = key

/-- Whether an event ends a flow. -/
def Ends (key : FlowKey) (event : Event) : Prop :=
  event.phase = .flowEnd ∧ event.flowKey = key

end Event

/-- Some events enter new scopes only through flows that they are inside: an event with a scope that
no event before has is the end of a flow, and one before begins the flow, which has not ended since.
The first event has its scope anyhow. -/
def EntersByFlows (events : List Event) : Prop :=
  ∀ before event after, events = before ++ event :: after → before ≠ [] →
    (∀ earlier ∈ before, earlier.scope ≠ event.scope) →
      event.phase = .flowEnd ∧ ∃ opening, opening.Begins event.flowKey ∧
        NoneSince (Event.Ends event.flowKey) opening before

/-- Without flows there is no way into another scope. -/
theorem EntersByFlows.scope_eq {events : List Event} (enters : EntersByFlows events)
    (hflow : ∀ event ∈ events, event.phase.isFlow = false) :
    ∀ a ∈ events, ∀ b ∈ events, a.scope = b.scope := by
  induction events using List.reverseRecOn with
  | nil => simp
  | append_singleton events last ih =>
      have hearlier : ∀ a ∈ events, ∀ b ∈ events, a.scope = b.scope := by
        refine ih (fun before event after hsplit => ?_) fun event hevent =>
          hflow event (by simp [hevent])
        exact enters before event (after ++ [last]) (by simp [hsplit])
      have hlast : ∀ a ∈ events, a.scope = last.scope := by
        intro a ha
        by_contra hne
        -- if one scope before is another one, all are
        have hnew : ∀ earlier ∈ events, earlier.scope ≠ last.scope := by
          intro earlier hmem
          rw [hearlier earlier hmem a ha]
          exact hne
        obtain ⟨hphase, _⟩ := enters events last [] rfl (List.ne_nil_of_mem ha) hnew
        have hnot := hflow last (by simp)
        rw [hphase] at hnot
        contradiction
      intro a ha b hb
      rcases List.mem_append.1 ha with ha | ha <;> rcases List.mem_append.1 hb with hb | hb
      · exact hearlier a ha b hb
      · rw [List.mem_singleton.1 hb, hlast a ha]
      · rw [List.mem_singleton.1 ha, hlast b hb]
      · rw [List.mem_singleton.1 ha, List.mem_singleton.1 hb]

namespace Matching

variable {view : View} {event : Event} {placed : Placed}
  {passed taken rest before after : List Placed} {trace : Trace} {position : Nat}

/-- Only the begin of a flow brings it into view, and its end takes it out. -/
theorem View.mem_flows_after {key : FlowKey} (h : key ∈ (view.after event).flows) :
    event.Begins key ∨ (key ∈ view.flows ∧ ¬ event.Ends key) := by
  unfold View.after at h
  split at h
  · rename_i hphase
    rcases Finset.mem_insert.1 h with rfl | h
    · exact Or.inl ⟨hphase, rfl⟩
    · refine Or.inr ⟨h, fun hends => ?_⟩
      rw [Event.Ends, hphase] at hends
      exact absurd hends.1 (by decide)
  · obtain ⟨hne, h⟩ := Finset.mem_erase.1 h
    exact Or.inr ⟨h, fun hends => hne hends.2.symm⟩
  · rename_i hend
    exact Or.inr ⟨h, fun hends => hend hends.1⟩

/-- An event brings no other scope into view than its own. -/
theorem View.mem_scopes_after {scope : Scope} (h : scope ∈ (view.after event).scopes) :
    scope = event.scope ∨ scope ∈ view.scopes := by
  unfold View.after at h
  split at h
  · exact Or.inr h
  · exact Finset.mem_insert.1 h
  · exact Or.inr h

/-- An event begins a flow that has not ended since, neither among all events passed nor among those
taken. -/
structure Opened (key : FlowKey) (opening : Placed) (passed taken : List Placed) : Prop where
  begins : opening.1.Begins key
  passed : NoneSince (fun placed => placed.1.Ends key) opening passed
  taken : NoneSince (fun placed => placed.1.Ends key) opening taken

/-- What is in view goes back to the events taken among those passed. -/
structure Tracks (view : View) (passed taken : List Placed) : Prop where
  scopes : ∀ scope ∈ view.scopes, ∃ placed ∈ taken, placed.1.scope = scope
  flows : ∀ key ∈ view.flows, ∃ opening, Opened key opening passed taken

theorem tracks_start (placed : Placed) (passed : List Placed) :
    Tracks (View.start placed.1) (passed ++ [placed]) [placed] where
  scopes := fun _ hscope =>
    ⟨placed, List.mem_singleton_self _, (Finset.mem_singleton.1 hscope).symm⟩
  flows := fun key hkey => absurd hkey (Finset.notMem_empty key)

/-- Taking an event in view. -/
theorem Tracks.take (tracks : Tracks view passed taken) (placed : Placed) :
    Tracks (view.after placed.1) (passed ++ [placed]) (taken ++ [placed]) where
  scopes := by
    intro scope hscope
    rcases View.mem_scopes_after hscope with rfl | hscope
    · exact ⟨placed, by simp, rfl⟩
    · obtain ⟨earlier, hearlier, rfl⟩ := tracks.scopes scope hscope
      exact ⟨earlier, by simp [hearlier], rfl⟩
  flows := by
    intro key hkey
    rcases View.mem_flows_after hkey with hbegins | ⟨hkey, hends⟩
    · exact ⟨placed, hbegins, noneSince_last _ _ _, noneSince_last _ _ _⟩
    · obtain ⟨opening, opened⟩ := tracks.flows key hkey
      exact ⟨opening, opened.begins, opened.passed.concat hends, opened.taken.concat hends⟩

/-- Passing an event that is not in view: the end of a flow in view would be. -/
theorem Tracks.pass (tracks : Tracks view passed taken) (hsees : ¬ view.Sees placed.1) :
    Tracks view (passed ++ [placed]) taken where
  scopes := tracks.scopes
  flows := by
    intro key hkey
    obtain ⟨opening, opened⟩ := tracks.flows key hkey
    refine ⟨opening, opened.begins, opened.passed.concat ?_, opened.taken⟩
    rintro ⟨hphase, rfl⟩
    exact hsees (Or.inr ⟨hphase, hkey⟩)

/-- At each event of a walk, what is in view goes back to the events taken before. -/
theorem Tracks.walk (tracks : Tracks view passed taken)
    (h : view.walk rest = before ++ placed :: after) :
    ∃ middle remaining view', rest = middle ++ placed :: remaining ∧
      Tracks view' (passed ++ middle) (taken ++ before) ∧ view'.Sees placed.1 := by
  induction rest generalizing view passed taken before with
  | nil => simp [View.walk] at h
  | cons head tail ih =>
      rw [View.walk] at h
      split at h
      · rename_i hsees
        cases before with
        | nil =>
            obtain ⟨rfl, _⟩ := List.cons.inj h
            exact ⟨[], tail, view, rfl, by simpa using tracks, hsees⟩
        | cons first before =>
            obtain ⟨rfl, htail⟩ := List.cons.inj h
            obtain ⟨middle, remaining, view', rfl, tracks', hplaced⟩ :=
              ih (tracks.take head) htail
            exact ⟨head :: middle, remaining, view', rfl, by simpa using tracks', hplaced⟩
      · rename_i hsees
        obtain ⟨middle, remaining, view', rfl, tracks', hplaced⟩ := ih (tracks.pass hsees) h
        exact ⟨head :: middle, remaining, view', rfl, by simpa using tracks', hplaced⟩

/-- An event in view with a new scope is the end of a flow in view. -/
theorem Tracks.opened_of_new_scope (tracks : Tracks view passed taken) (hsees : view.Sees event)
    (hnew : ∀ earlier ∈ taken, earlier.1.scope ≠ event.scope) :
    event.phase = .flowEnd ∧ ∃ opening, Opened event.flowKey opening passed taken := by
  rcases hsees with hscope | ⟨hphase, hflow⟩
  · obtain ⟨earlier, hearlier, heq⟩ := tracks.scopes event.scope hscope
    exact absurd heq (hnew earlier hearlier)
  · exact ⟨hphase, tracks.flows event.flowKey hflow⟩

/-- A start of a walk enters a new scope only at the end of a flow that it has entered, and the flow
has not ended anywhere in the trace since. -/
theorem opened_of_prefix_walk (hpre : before ++ placed :: after <+: trace.walk position)
    (hne : before ≠ []) (hnew : ∀ earlier ∈ before, earlier.1.scope ≠ placed.1.scope) :
    placed.1.phase = .flowEnd ∧ ∃ opening passed remaining,
      trace.placed = passed ++ placed :: remaining ∧
        Opened placed.1.flowKey opening passed before := by
  obtain ⟨first, before, rfl⟩ := List.exists_cons_of_ne_nil hne
  obtain ⟨more, hwalk⟩ := hpre
  have hlt : position < trace.placed.length := by
    by_contra hle
    simp [trace.walk_of_le (Nat.le_of_not_lt hle)] at hwalk
  obtain ⟨event, skipped, later, hplaced, hstart⟩ := trace.walk_of_lt hlt
  rw [hstart, List.append_assoc, List.cons_append, List.cons_append] at hwalk
  obtain ⟨rfl, hlater⟩ := List.cons.inj hwalk
  obtain ⟨middle, remaining, view, rfl, tracks, hsees⟩ :=
    (tracks_start (event, position) skipped).walk hlater.symm
  obtain ⟨hphase, opening, opened⟩ := tracks.opened_of_new_scope hsees hnew
  exact ⟨hphase, opening, _, remaining, by simp [hplaced], opened⟩

/-! ## Chains -/

/-- The id at a position of the trace order. -/
def idAt (trace : Trace) (position : Nat) : Nat :=
  trace.ids.getD position 0

theorem getElem?_ids (h : placed ∈ trace.placed) :
    trace.ids[placed.2]? = some (idAt trace placed.2) := by
  obtain ⟨entry, hentry, _⟩ := exists_entry h
  rw [← Array.getElem?_toList] at hentry
  simp [idAt, Trace.ids, hentry]

/-- An event is found under the id at its position. -/
theorem get?_idAt (stable : trace.Stable) (h : placed ∈ trace.placed) :
    trace.get? (idAt trace placed.2) = some placed.1 := by
  obtain ⟨entry, hentry, hevent⟩ := exists_entry h
  rw [← Array.getElem?_toList] at hentry
  have hid : idAt trace placed.2 = entry.id := by simp [idAt, Trace.ids, hentry]
  rw [hid, stable.get?_eq (List.mem_of_getElem? hentry), hevent]

/-- The events of a chain are the ids at the positions that it has taken. -/
theorem events_chainOfPath_eq_map (label : String) (h : ∀ placed ∈ taken, placed ∈ trace.placed) :
    (chainOfPath trace label (taken.map Prod.snd)).events =
      taken.map fun placed => idAt trace placed.2 := by
  rw [events_chainOfPath, List.filterMap_map, ← List.filterMap_eq_map']
  exact List.filterMap_congr fun placed hplaced => getElem?_ids (h placed hplaced)

/-- A start of a walk enters new scopes only through flows that it is inside. -/
theorem entersByFlows_of_prefix_walk (hpre : taken <+: trace.walk position) :
    EntersByFlows (taken.map Prod.fst) := by
  intro before event after hsplit hne hnew
  obtain ⟨earlier, rest, rfl, rfl, hrest⟩ := List.map_eq_append_iff.1 hsplit
  obtain ⟨placed, later, rfl, rfl, rfl⟩ := List.map_eq_cons_iff.1 hrest
  have hearlier : earlier ≠ [] := by
    rintro rfl
    exact hne rfl
  have hscopes : ∀ other ∈ earlier, other.1.scope ≠ placed.1.scope :=
    fun other hother => hnew other.1 (List.mem_map_of_mem hother)
  obtain ⟨hphase, opening, _, _, _, opened⟩ := opened_of_prefix_walk hpre hearlier hscopes
  exact ⟨hphase, opening.1, opened.begins, opened.taken.map fun _ _ hends => hends⟩

/-- A chain of a pattern enters a new scope only through a flow that it is inside; a chain without
flow events lies in one scope. -/
theorem find_enters_by_flows (built : trace.Built) (pattern : Pattern) (label : String)
    (rule : RepeatRule) :
    ∀ chain ∈ find trace pattern label rule,
      ∃ events, chain.events.map trace.get? = events.map some ∧ EntersByFlows events ∧
        ((∀ event ∈ events, event.phase.isFlow = false) →
          ∀ a ∈ events, ∀ b ∈ events, a.scope = b.scope) := by
  intro chain hchain
  obtain ⟨position, taken, hpre, htaken⟩ := (found_of_mem_find hchain).exists_taken
  have hplaced : ∀ placed ∈ taken, placed ∈ trace.placed :=
    fun placed hmem => (trace.walk_sublist position).subset (hpre.subset hmem)
  have enters := entersByFlows_of_prefix_walk hpre
  refine ⟨taken.map Prod.fst, ?_, enters, enters.scope_eq⟩
  rw [htaken, events_chainOfPath_eq_map _ hplaced, List.map_map, List.map_map]
  exact List.map_congr_left fun placed hmem => get?_idAt built.stable (hplaced placed hmem)

/-- A load is found where its tokens occur. -/
theorem mem_find_load {path : List Nat} {rule : RepeatRule} (fit : trace.KindsFit) (label : String)
    (h : path ∈ (occurrences rule Pattern.load.tokens ∅ trace.placed).map (·.map Prod.snd)) :
    chainOfPath trace label path ∈ find trace .load label rule := by
  have htokens : Pattern.load.tokens =
      .named "load" .opening :: [.wildcard, .named "load" .closing] := rfl
  rw [find_eq_map_occurrences htokens (Pattern.separated_of_compile Pattern.compile_load) fit]
  obtain ⟨taken, htaken, rfl⟩ := List.mem_map.1 h
  exact List.mem_map_of_mem htaken

/-- A load that goes from thread 1 to thread 2. A flow ends in thread 2 before it has begun, begins
twice and ends in thread 1, ends once more in thread 3, and only then begins in thread 1 and ends in
thread 2. -/
def detour : List Event :=
  [⟨"load", .spanBegin, .zero, ⟨1, 1⟩, none, [], Trace.load_ne_empty⟩,
    ⟨"send", .flowEnd, .zero, ⟨1, 2⟩, some 0, [], Trace.send_ne_empty⟩,
    ⟨"send", .flowBegin, .zero, ⟨1, 1⟩, some 0, [], Trace.send_ne_empty⟩,
    ⟨"send", .flowBegin, .zero, ⟨1, 1⟩, some 0, [], Trace.send_ne_empty⟩,
    ⟨"send", .flowEnd, .zero, ⟨1, 1⟩, some 0, [], Trace.send_ne_empty⟩,
    ⟨"send", .flowEnd, .zero, ⟨1, 3⟩, some 0, [], Trace.send_ne_empty⟩,
    ⟨"send", .flowBegin, .zero, ⟨1, 1⟩, some 0, [], Trace.send_ne_empty⟩,
    ⟨"send", .flowEnd, .zero, ⟨1, 2⟩, some 0, [], Trace.send_ne_empty⟩,
    ⟨"load", .spanEnd, .zero, ⟨1, 2⟩, none, [], Trace.load_ne_empty⟩]

/-- A load on a detour enters thread 2 through its flow, and thread 3 not at all. -/
theorem find_enters_by_flows_detour :
    let trace := Trace.ofEvents detour
    let chain := chainOfPath trace "loads" [0, 2, 3, 4, 6, 7, 8]
    trace.Built ∧ chain ∈ find trace .load "loads" .unrestricted ∧
      ∃ events, chain.events.map trace.get? = events.map some ∧ EntersByFlows events ∧
        ((∀ event ∈ events, event.phase.isFlow = false) →
          ∀ a ∈ events, ∀ b ∈ events, a.scope = b.scope) := by
  intro trace chain
  have hbuilt : trace.Built := Trace.built_ofEvents detour
  have hchain : chain ∈ find trace .load "loads" .unrestricted :=
    mem_find_load (Trace.kindsFit_of_length_le (by decide +kernel)) "loads" (by decide +kernel)
  exact ⟨hbuilt, hchain, find_enters_by_flows hbuilt .load "loads" .unrestricted chain hchain⟩

end Matching

end EventChains
