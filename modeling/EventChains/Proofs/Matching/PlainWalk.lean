import EventChains.Proofs.Matching.Plain
import EventChains.Proofs.Matching.Satisfying
import Mathlib.Data.List.TakeWhile

/-!
# Plain matching along a walk

Plain matching looks for its next event itself, and so follows a walk up to the first claimed event.
`complete_eq_shortest?` says that it takes the shortest start of this part of the walk that
satisfies the tokens, and `chainAt?_eq_shortest?` says the same for a whole chain.
-/

namespace EventChains.Matching

/-- The events before the first one that is claimed. -/
def beforeClaimed (claimed : Finset Nat) (events : List Placed) : List Placed :=
  events.takeWhile fun placed => placed.2 ∉ claimed

theorem beforeClaimed_isPrefix (claimed : Finset Nat) (events : List Placed) :
    beforeClaimed claimed events <+: events :=
  List.takeWhile_prefix _

/-- No event is claimed before the first one that is. -/
theorem not_mem_of_mem_beforeClaimed {claimed : Finset Nat} {events : List Placed} {placed : Placed}
    (h : placed ∈ beforeClaimed claimed events) : placed.2 ∉ claimed := by
  simpa using List.mem_takeWhile_imp h

/-- A start of a list without claimed events lies before the first claimed one. -/
theorem prefix_beforeClaimed {claimed : Finset Nat} {events taken : List Placed}
    (hpre : taken <+: events) (hfree : ∀ placed ∈ taken, placed.2 ∉ claimed) :
    taken <+: beforeClaimed claimed events := by
  obtain ⟨rest, rfl⟩ := hpre
  rw [beforeClaimed, List.takeWhile_append_of_pos (by simpa using hfree)]
  exact List.prefix_append taken _

/-- The shortest start of some events that satisfies tokens, where a wildcard before the tokens has
taken events of some kinds. -/
def shortestAfter? (rule : RepeatRule) (absorbed : Finset Kind) (tokens : List Token)
    (events : List Placed) : Option (List Placed) :=
  match tokens with
  | .wildcard :: following => runUntil rule (shortest? rule following) absorbed events
  | _ => shortest? rule tokens events

theorem shortestAfter?_empty (rule : RepeatRule) (tokens : List Token) (events : List Placed) :
    shortestAfter? rule ∅ tokens events = shortest? rule tokens events := by
  unfold shortestAfter?
  split
  · rw [shortest?]
  · rfl

namespace Plain

variable {rule : RepeatRule} {claimed : Finset Nat} {tokens : List Token} {absorbed : Finset Kind}
  {view : View} {rest later : List Placed} {placed : Placed}

/-- Where there is no next event, the walk is over or comes to a claimed event. -/
theorem beforeClaimed_of_next?_eq_none (h : next? claimed view rest = none) :
    beforeClaimed claimed (view.walk rest) = [] := by
  cases hview : view.next? rest with
  | none =>
      rw [View.walk_of_next?_eq_none hview]
      rfl
  | some next =>
      rw [next?, hview, Option.filter_some] at h
      rw [View.walk_of_next?_eq_some hview]
      split at h
      · contradiction
      · rename_i hclaimed
        exact List.takeWhile_cons_of_neg hclaimed

/-- The next event is the next one of the walk. -/
theorem beforeClaimed_of_next?_eq_some (h : next? claimed view rest = some (placed, later)) :
    beforeClaimed claimed (view.walk rest) =
      placed :: beforeClaimed claimed ((view.after placed.1).walk later) := by
  obtain ⟨hview, hfree⟩ := Option.filter_eq_some_iff.1 h
  rw [View.walk_of_next?_eq_some hview]
  exact List.takeWhile_cons_of_pos hfree

/-- Plain matching takes the shortest start of the walk that satisfies the tokens. -/
theorem complete_eq_shortest? (tokens : List Token) (absorbed : Finset Kind) (view : View)
    (rest : List Placed) :
    complete rule claimed tokens absorbed view rest =
      (shortestAfter? rule absorbed tokens (beforeClaimed claimed (view.walk rest))).map
        (·.map Prod.snd) := by
  fun_induction complete rule claimed tokens absorbed view rest with
  | case1 => rfl
  | case2 absorbed view rest name edge following hnext =>
      rw [beforeClaimed_of_next?_eq_none hnext]
      rfl
  | case3 absorbed view rest name edge following event position later hnext hkind ih =>
      rw [beforeClaimed_of_next?_eq_some hnext, ih, shortestAfter?_empty]
      show _ = (shortest? rule (.named name edge :: following) _).map _
      rw [shortest?, if_pos hkind, Option.map_map, Option.map_map]
      rfl
  | case4 absorbed view rest name edge following event position later hnext hkind =>
      rw [beforeClaimed_of_next?_eq_some hnext]
      show _ = (shortest? rule (.named name edge :: following) _).map _
      rw [shortest?, if_neg hkind]
      rfl
  | case5 absorbed view rest following ihStop ihGo =>
      rw [ihStop, shortestAfter?_empty]
      show _ = (runUntil rule (shortest? rule following) absorbed _).map _
      split
      · rename_i hnext
        rw [beforeClaimed_of_next?_eq_none hnext, runUntil, Option.or_none]
      · rename_i event position later hnext
        rw [beforeClaimed_of_next?_eq_some hnext, runUntil, Option.map_or]
        congr 1
        split
        · rfl
        · rw [ihGo event position later hnext, Option.map_map, Option.map_map]
          rfl

/-! ## Whole chains -/

/-- A chain is the shortest start of the walk from its first event that satisfies the tokens and has
no claimed event before its end. -/
theorem chainAt?_eq_shortest? {name : String} {edge : Edge} {following : List Token}
    {start : Placed} {later : List Placed} :
    chainAt? rule claimed (.named name edge :: following) start later =
      (shortest? rule (.named name edge :: following)
        (beforeClaimed claimed (start :: (View.start start.1).walk later))).map
          (·.map Prod.snd) := by
  rw [chainAt?]
  by_cases hfree : start.2 ∉ claimed
  · rw [beforeClaimed, List.takeWhile_cons_of_pos (by simpa using hfree), shortest?]
    by_cases hkind : start.1.kind = (name, edge.phase)
    · rw [if_pos ⟨hfree, hkind⟩, if_pos hkind, complete_eq_shortest?, shortestAfter?_empty,
        Option.map_map, Option.map_map]
      rfl
    · rw [if_neg fun h => hkind h.2, if_neg hkind]
      rfl
  · rw [if_neg fun h => hfree h.1, beforeClaimed, List.takeWhile_cons_of_neg (by simpa using hfree),
      shortest?]
    rfl

/-- The chains that plain matching finds, in terms of the walk. -/
theorem chainAt?_eq_some_iff {name : String} {edge : Edge} {following : List Token} {start : Placed}
    {later : List Placed} {path : List Nat} :
    chainAt? rule claimed (.named name edge :: following) start later = some path ↔
      ∃ taken, Shortest rule (.named name edge :: following)
        (beforeClaimed claimed (start :: (View.start start.1).walk later)) taken ∧
          taken.map Prod.snd = path := by
  rw [chainAt?_eq_shortest?, Option.map_eq_some_iff]
  simp only [shortest?_eq_some_iff]

/-- Tokens that name an event of a kind that does not occur have no chain. -/
theorem chainAt?_of_absent {name : String} {edge : Edge} {start : Placed} {later : List Placed}
    (hmem : .named name edge ∈ tokens)
    (habsent : ∀ placed ∈ start :: later, placed.1.kind ≠ (name, edge.phase)) :
    chainAt? rule claimed tokens start later = none := by
  cases tokens with
  | nil => contradiction
  | cons token following =>
      cases token with
      | wildcard => rfl
      | named =>
          refine Option.eq_none_iff_forall_ne_some.2 fun path hpath => ?_
          obtain ⟨taken, shortest, _⟩ := chainAt?_eq_some_iff.1 hpath
          obtain ⟨placed, hplaced, hkind⟩ := shortest.satisfies.exists_mem hmem
          have hwalk : placed ∈ start :: (View.start start.1).walk later :=
            (shortest.isPrefix.trans (beforeClaimed_isPrefix _ _)).subset hplaced
          have hsublist := ((View.start start.1).walk_sublist later).cons_cons start
          exact habsent placed (hsublist.subset hwalk) hkind

/-- Neither does a scan find a chain of such tokens. -/
theorem scan_of_absent {name : String} {edge : Edge} (hmem : .named name edge ∈ tokens)
    (habsent : ∀ placed ∈ rest, placed.1.kind ≠ (name, edge.phase)) :
    scan rule tokens claimed rest = [] := by
  induction rest with
  | nil => rfl
  | cons start later ih =>
      rw [scan, chainAt?_of_absent hmem habsent]
      exact ih fun placed hplaced => habsent placed (List.mem_cons_of_mem _ hplaced)

end Plain

end EventChains.Matching
