import EventChains.Matching.Step
import EventChains.Proofs.Matching.Walk
import Mathlib.Data.List.Infix
import Mathlib.Data.List.Nodup

/-!
# Events that satisfy tokens

`Satisfies` says when some events are an occurrence of some tokens: they split into one event for
each named token and a run of events for each wildcard. `shortest?` looks for such events at the
start of a list and lets every wildcard stop as early as it can. A run that stops early can leave
more events to a later one, so it is not plain that early stops lead to few events; that they do is
`length_le_of_shortest?`. The main statement is `shortest?_eq_some_iff`.
-/

namespace EventChains.Matching

/-- Whether a wildcard may take a run of events. -/
def RepeatRule.Allows (rule : RepeatRule) (run : List Placed) : Prop :=
  rule = .noRepeat → (run.map fun placed => placed.1.kind).Nodup

/-- Events split in token order: each named token takes one event of its kind, and each wildcard a
run of events. -/
inductive Satisfies (rule : RepeatRule) : List Token → List Placed → Prop where
  | nil : Satisfies rule [] []
  | named {name : String} {edge : Edge} {tokens : List Token} {placed : Placed}
      {events : List Placed} (hkind : placed.1.kind = (name, edge.phase))
      (h : Satisfies rule tokens events) :
      Satisfies rule (.named name edge :: tokens) (placed :: events)
  | wildcard {tokens : List Token} {run events : List Placed} (hrun : rule.Allows run)
      (h : Satisfies rule tokens events) : Satisfies rule (.wildcard :: tokens) (run ++ events)

/-- The shortest start of some events that satisfies some tokens. -/
structure Shortest (rule : RepeatRule) (tokens : List Token) (events taken : List Placed) :
    Prop where
  isPrefix : taken <+: events
  satisfies : Satisfies rule tokens taken
  least : ∀ other, other <+: events → Satisfies rule tokens other → taken <+: other

variable {rule : RepeatRule} {absorbed : Finset Kind} {tokens : List Token}
  {events taken other : List Placed}

/-- The shortest start of a list is that of every list which starts with it. -/
theorem Shortest.of_isPrefix (shortest : Shortest rule tokens events taken)
    (hpre : taken <+: other) : Shortest rule tokens other taken := by
  refine ⟨hpre, shortest.satisfies, fun found hfound hsatisfies => ?_⟩
  -- of two starts of a list one is a start of the other
  rcases List.prefix_or_prefix_of_prefix hpre hfound with hle | hge
  · exact hle
  · exact shortest.least found (hge.trans shortest.isPrefix) hsatisfies

/-- An event of its kind satisfies a named token. -/
theorem Satisfies.exists_mem {name : String} {edge : Edge} (h : Satisfies rule tokens events)
    (hmem : .named name edge ∈ tokens) : ∃ placed ∈ events, placed.1.kind = (name, edge.phase) := by
  induction h with
  | nil => contradiction
  | named hkind _ ih =>
      rcases List.mem_cons.1 hmem with heq | hmem
      · cases heq
        exact ⟨_, List.mem_cons_self, hkind⟩
      · obtain ⟨placed, hplaced, hkind⟩ := ih hmem
        exact ⟨placed, List.mem_cons_of_mem _ hplaced, hkind⟩
  | wildcard _ _ ih =>
      rcases List.mem_cons.1 hmem with heq | hmem
      · contradiction
      · obtain ⟨placed, hplaced, hkind⟩ := ih hmem
        exact ⟨placed, List.mem_append_right _ hplaced, hkind⟩

/-! ## Where a run stops -/

/-- Whether a wildcard that has taken events of some kinds may take a further run of events. -/
def RepeatRule.AllowsAfter (rule : RepeatRule) (absorbed : Finset Kind) (run : List Placed) :
    Prop :=
  rule = .noRepeat →
    (run.map fun placed => placed.1.kind).Nodup ∧ ∀ placed ∈ run, placed.1.kind ∉ absorbed

theorem RepeatRule.allowsAfter_nil : rule.AllowsAfter absorbed [] :=
  fun _ => ⟨List.nodup_nil, by simp⟩

theorem RepeatRule.allowsAfter_empty {run : List Placed} :
    rule.AllowsAfter ∅ run ↔ rule.Allows run :=
  forall_congr' fun _ => by simp

/-- A run goes on after its first event as if the kind of that event had been taken before. -/
theorem RepeatRule.allowsAfter_cons {placed : Placed} {run : List Placed} :
    rule.AllowsAfter absorbed (placed :: run) ↔
      ¬ (rule = .noRepeat ∧ placed.1.kind ∈ absorbed) ∧
        rule.AllowsAfter (insert placed.1.kind absorbed) run := by
  unfold AllowsAfter
  cases rule with
  | unrestricted => simp
  | noRepeat =>
      simp only [List.map_cons, List.nodup_cons, List.mem_map, not_exists, not_and,
        List.forall_mem_cons, Finset.mem_insert, not_or, true_and, forall_const]
      constructor
      · rintro ⟨⟨hnew, hnodup⟩, hfree, hrun⟩
        exact ⟨hfree, hnodup, fun other hother => ⟨hnew other hother, hrun other hother⟩⟩
      · rintro ⟨hfree, hnodup, hrun⟩
        exact ⟨⟨fun other hother => (hrun other hother).1, hnodup⟩, hfree,
          fun other hother => (hrun other hother).2⟩

/-- Lets a run of events pass until `next` succeeds on the events after it. Gives the run together
with what `next` takes. -/
def runUntil (rule : RepeatRule) (next : List Placed → Option (List Placed)) :
    Finset Kind → List Placed → Option (List Placed)
  | _, [] => next []
  | absorbed, placed :: later =>
      (next (placed :: later)).or <|
        if rule = .noRepeat ∧ placed.1.kind ∈ absorbed then none
        else (runUntil rule next (insert placed.1.kind absorbed) later).map (placed :: ·)

section Run

variable {next : List Placed → Option (List Placed)}

/-- Where `next` succeeds at once, no event passes. -/
theorem runUntil_of_next (h : next events = some taken) :
    runUntil rule next absorbed events = some taken := by
  cases events with
  | nil => exact h
  | cons placed later => rw [runUntil, h, Option.some_or]

/-- The run that passes is allowed, `next` succeeds after it, and it does so after no fewer
events. -/
theorem runUntil_spec (h : runUntil rule next absorbed events = some taken) :
    ∃ run rest tail, events = run ++ rest ∧ rule.AllowsAfter absorbed run ∧ next rest = some tail ∧
      taken = run ++ tail ∧ ∀ n, (next (events.drop n)).isSome → run.length ≤ n := by
  induction events generalizing absorbed taken with
  | nil => exact ⟨[], [], taken, rfl, RepeatRule.allowsAfter_nil, h, rfl, fun n _ => Nat.zero_le n⟩
  | cons placed later ih =>
      -- the run stops at once if it can, and otherwise takes the first event
      cases hnext : next (placed :: later) with
      | some tail =>
          rw [runUntil_of_next hnext] at h
          cases h
          exact ⟨[], placed :: later, taken, rfl, RepeatRule.allowsAfter_nil, hnext, rfl,
            fun n _ => Nat.zero_le n⟩
      | none =>
          rw [runUntil, hnext, Option.none_or] at h
          split at h
          · contradiction
          · rename_i hfree
            obtain ⟨more, hmore, rfl⟩ := Option.map_eq_some_iff.1 h
            obtain ⟨run, rest, tail, rfl, hrun, hrest, rfl, hleast⟩ := ih hmore
            refine ⟨placed :: run, rest, tail, rfl, RepeatRule.allowsAfter_cons.2 ⟨hfree, hrun⟩,
              hrest, rfl, fun n hn => ?_⟩
            cases n with
            | zero => simp [hnext] at hn
            | succ n => exact Nat.succ_le_succ (hleast n hn)

/-- If `next` succeeds after some allowed run, a run passes. -/
theorem isSome_runUntil {run rest : List Placed} (hrun : rule.AllowsAfter absorbed run)
    (hnext : (next rest).isSome) : (runUntil rule next absorbed (run ++ rest)).isSome := by
  induction run generalizing absorbed with
  | nil =>
      obtain ⟨tail, htail⟩ := Option.isSome_iff_exists.1 hnext
      rw [List.nil_append, runUntil_of_next htail]
      rfl
  | cons placed run ih =>
      obtain ⟨hfree, hrun⟩ := RepeatRule.allowsAfter_cons.1 hrun
      rw [List.cons_append, runUntil, if_neg hfree, Option.isSome_or, Option.isSome_map, ih hrun,
        Bool.or_true]

end Run

/-! ## Early stops lead to few events -/

/-- The events at the start of a list that satisfy some tokens; each wildcard stops as early as it
can. -/
def shortest? (rule : RepeatRule) : List Token → List Placed → Option (List Placed)
  | [], _ => some []
  | .named _ _ :: _, [] => none
  | .named name edge :: tokens, placed :: later =>
      if placed.1.kind = (name, edge.phase) then
        (shortest? rule tokens later).map (placed :: ·)
      else none
  | .wildcard :: tokens, events => runUntil rule (shortest? rule tokens) ∅ events

/-- A named token takes the first event if it is of its kind. -/
theorem shortest?_named_eq_some {name : String} {edge : Edge}
    (h : shortest? rule (.named name edge :: tokens) events = some taken) :
    ∃ placed later more, events = placed :: later ∧ placed.1.kind = (name, edge.phase) ∧
      shortest? rule tokens later = some more ∧ taken = placed :: more := by
  cases events with
  | nil => contradiction
  | cons placed later =>
      rw [shortest?] at h
      split at h
      · rename_i hkind
        obtain ⟨more, hmore, rfl⟩ := Option.map_eq_some_iff.1 h
        exact ⟨placed, later, more, rfl, hkind, hmore, rfl⟩
      · contradiction

/-- The events found are a start of the list and satisfy the tokens. -/
theorem shortest?_sound (h : shortest? rule tokens events = some taken) :
    taken <+: events ∧ Satisfies rule tokens taken := by
  induction tokens generalizing events taken with
  | nil =>
      cases h
      refine ⟨?_, .nil⟩
      exact List.nil_prefix
  | cons token tokens ih =>
      cases token with
      | named name edge =>
          obtain ⟨placed, later, more, rfl, hkind, hmore, rfl⟩ := shortest?_named_eq_some h
          obtain ⟨hpre, hsatisfies⟩ := ih hmore
          exact ⟨(List.prefix_cons_inj placed).2 hpre, .named hkind hsatisfies⟩
      | wildcard =>
          obtain ⟨run, rest, tail, rfl, hrun, hrest, rfl, _⟩ := runUntil_spec h
          obtain ⟨hpre, hsatisfies⟩ := ih hrest
          exact ⟨(List.prefix_append_right_inj run).2 hpre,
            .wildcard (RepeatRule.allowsAfter_empty.1 hrun) hsatisfies⟩

/-- If some start of a list satisfies the tokens, one is found. -/
theorem isSome_shortest? (hother : Satisfies rule tokens other) (hpre : other <+: events) :
    (shortest? rule tokens events).isSome := by
  induction hother generalizing events with
  | nil =>
      rw [shortest?]
      rfl
  | named hkind _ ih =>
      obtain ⟨rest, rfl⟩ := hpre
      rw [List.cons_append, shortest?, if_pos hkind, Option.isSome_map]
      exact ih (List.prefix_append _ rest)
  | wildcard hrun _ ih =>
      obtain ⟨rest, rfl⟩ := hpre
      rw [shortest?, List.append_assoc]
      exact isSome_runUntil (RepeatRule.allowsAfter_empty.2 hrun) (ih (List.prefix_append _ rest))

/-- No other events that satisfy the tokens end earlier, even if they start later. -/
theorem length_le_of_shortest? (h : shortest? rule tokens events = some taken) {skipped : Nat}
    (hpre : other <+: events.drop skipped) (hother : Satisfies rule tokens other) :
    taken.length ≤ skipped + other.length := by
  induction tokens generalizing events taken other skipped with
  | nil =>
      cases h
      exact Nat.zero_le _
  | cons token tokens ih =>
      cases token with
      | named name edge =>
          obtain ⟨placed, later, more, rfl, _, hmore, rfl⟩ := shortest?_named_eq_some h
          cases hother with
          | @named _ _ _ first following _ hsatisfies =>
              have hlater : following <+: later.drop skipped := by
                obtain ⟨rest, hrest⟩ := hpre
                refine ⟨rest, (congrArg List.tail hrest).trans ?_⟩
                rw [List.tail_drop, List.drop_succ_cons]
              have hle := ih hmore hlater hsatisfies
              simp only [List.length_cons]
              omega
      | wildcard =>
          obtain ⟨run, rest, tail, rfl, _, hrest, rfl, hleast⟩ := runUntil_spec h
          cases hother with
          | @wildcard _ otherRun otherTail _ hsatisfies =>
              -- the tokens after the wildcard could go on where the other run stops, so this run
              -- stops no later, and they may count the events in between as skipped
              have hafter : otherTail <+: (run ++ rest).drop (skipped + otherRun.length) := by
                rw [← List.drop_drop]
                obtain ⟨more, hmore⟩ := hpre
                rw [← hmore, List.append_assoc, List.drop_left]
                exact List.prefix_append otherTail more
              have hrun : run.length ≤ skipped + otherRun.length :=
                hleast _ (isSome_shortest? hsatisfies hafter)
              rw [List.drop_append, List.drop_eq_nil_of_le hrun, List.nil_append] at hafter
              have htail := ih hrest hafter hsatisfies
              simp only [List.length_append]
              omega

/-- What is found is the shortest start of the list that satisfies the tokens. -/
theorem shortest?_eq_some_iff :
    shortest? rule tokens events = some taken ↔ Shortest rule tokens events taken := by
  have hfound {taken : List Placed} (h : shortest? rule tokens events = some taken) :
      Shortest rule tokens events taken := by
    obtain ⟨hpre, hsatisfies⟩ := shortest?_sound h
    refine ⟨hpre, hsatisfies, fun other hother hsat => ?_⟩
    have hlength : taken.length ≤ 0 + other.length := length_le_of_shortest? h hother hsat
    exact List.prefix_of_prefix_length_le hpre hother (by omega)
  constructor
  · exact hfound
  · intro h
    obtain ⟨found, hsome⟩ := Option.isSome_iff_exists.1 (isSome_shortest? h.satisfies h.isPrefix)
    have hbest := hfound hsome
    rw [hsome]
    have hle := h.least found hbest.isPrefix hbest.satisfies
    have hge := hbest.least taken h.isPrefix h.satisfies
    exact congrArg some (hge.eq_of_length_le hle.length_le)

end EventChains.Matching
