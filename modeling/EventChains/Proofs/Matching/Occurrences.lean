import EventChains.Proofs.Matching.PlainWalk

/-!
# Occurrences

`occurrences` lists the chains of some tokens by their events: each event that no earlier chain has
claimed may be a first event, and the chain is the shortest start of the walk from there that
satisfies the tokens and meets no claimed event. Plain matching finds the positions of these chains
(`scan_eq_occurrences`). What is found depends on the order of the positions only: see
`occurrences_map`.
-/

namespace EventChains.Matching

/-- The events that start with a given one and satisfy some tokens, before the first claimed
event. -/
def occurrenceAt? (rule : RepeatRule) (tokens : List Token) (claimed : Finset Nat) (start : Placed)
    (later : List Placed) : Option (List Placed) :=
  shortest? rule tokens (beforeClaimed claimed (start :: (View.start start.1).walk later))

/-- The positions of some events. -/
def positions (events : List Placed) : Finset Nat :=
  (events.map Prod.snd).toFinset

/-- The chains of some tokens in trace order, each as the list of its events. A chain claims its
events. -/
def occurrences (rule : RepeatRule) (tokens : List Token) (claimed : Finset Nat) :
    List Placed → List (List Placed)
  | [] => []
  | start :: later =>
      match occurrenceAt? rule tokens claimed start later with
      | some taken => taken :: occurrences rule tokens (claimed ∪ positions taken) later
      | none => occurrences rule tokens claimed later

variable {rule : RepeatRule} {tokens following : List Token} {name : String} {edge : Edge}
  {claimed claimed' : Finset Nat} {start : Placed} {later rest taken : List Placed}

theorem mem_positions {position : Nat} :
    position ∈ positions taken ↔ ∃ placed ∈ taken, placed.2 = position := by
  simp [positions]

/-- Where a chain starts, it is found and claims its events. -/
theorem occurrences_of_some (h : occurrenceAt? rule tokens claimed start later = some taken) :
    occurrences rule tokens claimed (start :: later) =
      taken :: occurrences rule tokens (claimed ∪ positions taken) later := by
  rw [occurrences, h]

/-- Where no chain starts, the search goes on. -/
theorem occurrences_of_none (h : occurrenceAt? rule tokens claimed start later = none) :
    occurrences rule tokens claimed (start :: later) = occurrences rule tokens claimed later := by
  rw [occurrences, h]

/-- Plain matching finds the positions of the occurrences. -/
theorem scan_eq_occurrences :
    Plain.scan rule (.named name edge :: following) claimed rest =
      (occurrences rule (.named name edge :: following) claimed rest).map (·.map Prod.snd) := by
  induction rest generalizing claimed with
  | nil => rfl
  | cons start later ih =>
      have hchain : Plain.chainAt? rule claimed (.named name edge :: following) start later =
          (occurrenceAt? rule (.named name edge :: following) claimed start later).map
            (·.map Prod.snd) :=
        Plain.chainAt?_eq_shortest?
      rw [Plain.scan, hchain]
      cases h : occurrenceAt? rule (.named name edge :: following) claimed start later with
      | none =>
          rw [occurrences_of_none h, ← ih]
          rfl
      | some taken =>
          rw [occurrences_of_some h, List.map_cons, ← ih]
          rfl

/-! ## What an occurrence is -/

/-- An occurrence is the shortest start of the walk before the first claimed event. -/
theorem occurrenceAt?_eq_some_iff :
    occurrenceAt? rule tokens claimed start later = some taken ↔
      Shortest rule tokens (beforeClaimed claimed (start :: (View.start start.1).walk later))
        taken :=
  shortest?_eq_some_iff

/-- The events of an occurrence are a start of the walk, none of them is claimed, and there are
some. -/
theorem spec_of_occurrenceAt?
    (h : occurrenceAt? rule (.named name edge :: following) claimed start later = some taken) :
    taken <+: start :: (View.start start.1).walk later ∧
      (∀ placed ∈ taken, placed.2 ∉ claimed) ∧ ∃ more, taken = start :: more := by
  have shortest := occurrenceAt?_eq_some_iff.1 h
  have hpre := shortest.isPrefix.trans (beforeClaimed_isPrefix claimed _)
  refine ⟨hpre, fun placed hplaced =>
    not_mem_of_mem_beforeClaimed (shortest.isPrefix.subset hplaced), ?_⟩
  cases shortest.satisfies with
  | @named _ _ _ placed events _ _ =>
      obtain ⟨rfl, _⟩ := List.cons_prefix_cons.1 hpre
      exact ⟨events, rfl⟩

/-- An occurrence is found again where the walk starts with it. -/
theorem occurrenceAt?_of_isPrefix {others : List Placed}
    (h : occurrenceAt? rule tokens claimed start later = some taken)
    (hpre : taken <+: start :: (View.start start.1).walk others) :
    occurrenceAt? rule tokens claimed start others = some taken := by
  have shortest := occurrenceAt?_eq_some_iff.1 h
  have hfree : ∀ placed ∈ taken, placed.2 ∉ claimed := fun placed hplaced =>
    not_mem_of_mem_beforeClaimed (shortest.isPrefix.subset hplaced)
  exact occurrenceAt?_eq_some_iff.2 (shortest.of_isPrefix (prefix_beforeClaimed hpre hfree))

/-- No event comes before a claimed one at the start. -/
theorem beforeClaimed_of_claimed (h : start.2 ∈ claimed) :
    beforeClaimed claimed (start :: later) = [] :=
  List.takeWhile_cons_of_neg (by simpa using h)

/-- An event at the start that is not claimed comes before the first one that is. -/
theorem beforeClaimed_of_free (h : start.2 ∉ claimed) :
    beforeClaimed claimed (start :: later) = start :: beforeClaimed claimed later :=
  List.takeWhile_cons_of_pos (by simpa using h)

/-- Nothing starts at a claimed event. -/
theorem occurrenceAt?_of_claimed (h : start.2 ∈ claimed) :
    occurrenceAt? rule (.named name edge :: following) claimed start later = none := by
  rw [occurrenceAt?, beforeClaimed_of_claimed h]
  rfl

/-- The events of an occurrence are in trace order and not claimed. -/
theorem of_mem_occurrences
    (h : taken ∈ occurrences rule (.named name edge :: following) claimed rest) :
    taken.Sublist rest ∧ (∀ placed ∈ taken, placed.2 ∉ claimed) ∧ taken ≠ [] := by
  induction rest generalizing claimed with
  | nil => contradiction
  | cons start later ih =>
      cases hat : occurrenceAt? rule (.named name edge :: following) claimed start later with
      | none =>
          rw [occurrences_of_none hat] at h
          obtain ⟨hsublist, hfree, hne⟩ := ih h
          exact ⟨hsublist.cons start, hfree, hne⟩
      | some found =>
          obtain ⟨hpre, hfree, more, hmore⟩ := spec_of_occurrenceAt? hat
          rw [occurrences_of_some hat] at h
          rcases List.mem_cons.1 h with rfl | h
          · have hsublist := ((View.start start.1).walk_sublist later).cons_cons start
            exact ⟨hpre.sublist.trans hsublist, hfree, by simp [hmore]⟩
          · obtain ⟨hsublist, hlater, hne⟩ := ih h
            refine ⟨hsublist.cons start, fun placed hplaced hclaimed => ?_, hne⟩
            exact hlater placed hplaced (Finset.mem_union_left _ hclaimed)

/-! ## New positions -/

/-- Events with new positions. -/
def renumber (f : Nat → Nat) : Placed → Placed :=
  Prod.map id f

theorem renumber_id : renumber id = id :=
  Prod.map_id

variable {f : Nat → Nat}

/-- A walk does not look at positions. -/
theorem View.walk_map (view : View) (rest : List Placed) :
    view.walk (rest.map (renumber f)) = (view.walk rest).map (renumber f) := by
  induction rest generalizing view with
  | nil => rfl
  | cons head tail ih =>
      rw [List.map_cons, View.walk, View.walk]
      show (if view.Sees head.1 then
        renumber f head :: (view.after head.1).walk (tail.map (renumber f))
          else view.walk (tail.map (renumber f))) = _
      split
      · rw [ih, List.map_cons]
      · exact ih view

/-- Neither does a run. -/
theorem runUntil_map {next : List Placed → Option (List Placed)}
    (hnext : ∀ events, next (events.map (renumber f)) = (next events).map (·.map (renumber f)))
    (absorbed : Finset Kind) (events : List Placed) :
    runUntil rule next absorbed (events.map (renumber f)) =
      (runUntil rule next absorbed events).map (·.map (renumber f)) := by
  induction events generalizing absorbed with
  | nil => exact hnext []
  | cons placed later ih =>
      have hhead := hnext (placed :: later)
      rw [List.map_cons] at hhead
      rw [List.map_cons, runUntil, runUntil, hhead, Option.map_or]
      congr 1
      show (if rule = .noRepeat ∧ placed.1.kind ∈ absorbed then none
        else (runUntil rule next (insert placed.1.kind absorbed) (later.map (renumber f))).map
          (renumber f placed :: ·)) = _
      split
      · rfl
      · rw [ih, Option.map_map, Option.map_map]
        rfl

/-- Whether events satisfy tokens does not depend on positions. -/
theorem shortest?_map (tokens : List Token) (events : List Placed) :
    shortest? rule tokens (events.map (renumber f)) =
      (shortest? rule tokens events).map (·.map (renumber f)) := by
  induction tokens generalizing events with
  | nil => rfl
  | cons token tokens ih =>
      cases token with
      | wildcard => exact runUntil_map ih ∅ events
      | named name edge =>
          cases events with
          | nil => rfl
          | cons placed later =>
              rw [List.map_cons, shortest?, shortest?]
              show (if placed.1.kind = (name, edge.phase) then
                (shortest? rule tokens (later.map (renumber f))).map (renumber f placed :: ·)
                  else none) = _
              split
              · rw [ih, Option.map_map, Option.map_map]
                rfl
              · rfl

/-- Where the same events are claimed, the same ones come before the first claimed event. -/
theorem beforeClaimed_map {events : List Placed}
    (hclaimed : ∀ placed ∈ events, f placed.2 ∈ claimed' ↔ placed.2 ∈ claimed) :
    beforeClaimed claimed' (events.map (renumber f)) =
      (beforeClaimed claimed events).map (renumber f) := by
  induction events with
  | nil => rfl
  | cons placed events ih =>
      obtain ⟨hplaced, hevents⟩ := List.forall_mem_cons.1 hclaimed
      rw [List.map_cons]
      by_cases h : placed.2 ∈ claimed
      · rw [beforeClaimed_of_claimed h, beforeClaimed_of_claimed (hplaced.2 h), List.map_nil]
      · rw [beforeClaimed_of_free h, beforeClaimed_of_free (mt hplaced.1 h), ih hevents,
          List.map_cons]

/-- New positions give the same occurrence with new positions. -/
theorem occurrenceAt?_map
    (hclaimed : ∀ placed ∈ start :: later, f placed.2 ∈ claimed' ↔ placed.2 ∈ claimed) :
    occurrenceAt? rule tokens claimed' (renumber f start) (later.map (renumber f)) =
      (occurrenceAt? rule tokens claimed start later).map (·.map (renumber f)) := by
  have hwalk : renumber f start :: (View.start start.1).walk (later.map (renumber f)) =
      (start :: (View.start start.1).walk later).map (renumber f) := by
    rw [View.walk_map, List.map_cons]
  have hsublist := ((View.start start.1).walk_sublist later).cons_cons start
  show shortest? rule tokens (beforeClaimed claimed'
    (renumber f start :: (View.start start.1).walk (later.map (renumber f)))) = _
  rw [hwalk, beforeClaimed_map fun placed hplaced => hclaimed placed (hsublist.subset hplaced),
    shortest?_map]
  rfl

/-- New positions that are different for different events, with the same events claimed, give the
same chains with new positions. -/
theorem occurrences_map
    (hinj : ∀ a ∈ rest, ∀ b ∈ rest, f a.2 = f b.2 → a.2 = b.2)
    (hclaimed : ∀ placed ∈ rest, f placed.2 ∈ claimed' ↔ placed.2 ∈ claimed) :
    occurrences rule (.named name edge :: following) claimed' (rest.map (renumber f)) =
      (occurrences rule (.named name edge :: following) claimed rest).map
        (·.map (renumber f)) := by
  induction rest generalizing claimed claimed' with
  | nil => rfl
  | cons start later ih =>
      have hat : occurrenceAt? rule (.named name edge :: following) claimed' (renumber f start)
          (later.map (renumber f)) =
            (occurrenceAt? rule (.named name edge :: following) claimed start later).map
              (·.map (renumber f)) :=
        occurrenceAt?_map hclaimed
      have hlater : ∀ a ∈ later, ∀ b ∈ later, f a.2 = f b.2 → a.2 = b.2 := fun a ha b hb =>
        hinj a (List.mem_cons_of_mem _ ha) b (List.mem_cons_of_mem _ hb)
      rw [List.map_cons]
      cases hfound : occurrenceAt? rule (.named name edge :: following) claimed start later with
      | none =>
          rw [hfound, Option.map_none] at hat
          rw [occurrences_of_none hat, occurrences_of_none hfound]
          exact ih hlater fun placed hplaced => hclaimed placed (List.mem_cons_of_mem _ hplaced)
      | some taken =>
          rw [hfound, Option.map_some] at hat
          rw [occurrences_of_some hat, occurrences_of_some hfound, List.map_cons]
          refine congrArg (_ :: ·) (ih hlater fun placed hplaced => ?_)
          -- the events of the occurrence are claimed under their old and their new positions
          have hmem := List.mem_cons_of_mem start hplaced
          have htaken : f placed.2 ∈ positions (taken.map (renumber f)) ↔
              placed.2 ∈ positions taken := by
            have hsublist : taken.Sublist (start :: later) :=
              (spec_of_occurrenceAt? hfound).1.sublist.trans
                (((View.start start.1).walk_sublist later).cons_cons start)
            rw [mem_positions, mem_positions]
            constructor
            · rintro ⟨_, hmapped, heq⟩
              obtain ⟨other, hother, rfl⟩ := List.mem_map.1 hmapped
              exact ⟨other, hother, hinj other (hsublist.subset hother) placed hmem heq⟩
            · rintro ⟨other, hother, heq⟩
              exact ⟨renumber f other, List.mem_map_of_mem hother, congrArg f heq⟩
          rw [Finset.mem_union, Finset.mem_union, hclaimed placed hmem, htaken]

/-- Of the claimed events only those of the walk matter for an occurrence. -/
theorem occurrenceAt?_congr (h : ∀ placed ∈ start :: (View.start start.1).walk later,
      placed.2 ∈ claimed' ↔ placed.2 ∈ claimed) :
    occurrenceAt? rule tokens claimed' start later =
      occurrenceAt? rule tokens claimed start later := by
  have hbefore : beforeClaimed claimed' (List.map (renumber id) _) = _ := beforeClaimed_map h
  rw [renumber_id, List.map_id, List.map_id] at hbefore
  rw [occurrenceAt?, occurrenceAt?, hbefore]

/-- Only claimed events that are still to come matter. -/
theorem occurrences_congr (h : ∀ placed ∈ rest, placed.2 ∈ claimed' ↔ placed.2 ∈ claimed) :
    occurrences rule (.named name edge :: following) claimed' rest =
      occurrences rule (.named name edge :: following) claimed rest := by
  have hmap : occurrences rule (.named name edge :: following) claimed' (rest.map (renumber id)) =
      (occurrences rule (.named name edge :: following) claimed rest).map
        (·.map (renumber id)) :=
    occurrences_map (fun _ _ _ _ heq => heq) h
  simpa [renumber_id] using hmap

/-- An event is known by its position. -/
theorem eq_of_position_eq (increasing : rest.Pairwise fun a b => a.2 < b.2) {a b : Placed}
    (ha : a ∈ rest) (hb : b ∈ rest) (h : a.2 = b.2) : a = b := by
  have hnodup : (rest.map Prod.snd).Nodup :=
    List.pairwise_map.2 (increasing.imp fun hlt => Nat.ne_of_lt hlt)
  exact List.inj_on_of_nodup_map hnodup ha hb h

end EventChains.Matching
