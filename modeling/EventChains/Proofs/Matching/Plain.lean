import EventChains.Matching.Step
import EventChains.Proofs.Matching.Walk
import EventChains.Trace.Basic
import Mathlib.Data.Finset.Lattice.Basic

/-!
# Plain matching

Plain matching finds the chains of a pattern by backtracking over the events of a trace. It has no
numbers for kinds, no look at the trace as a whole, and no memory: `Plain.complete` takes the tokens
one by one, `Plain.chainAt?` tries one first event, and `Plain.scan` tries all events in trace
order.
-/

namespace EventChains.Matching.Plain

variable (rule : RepeatRule) (claimed : Finset Nat)

/-- The next event in view, unless it is in an earlier chain. -/
def next? (view : View) (rest : List Placed) : Option (Placed × List Placed) :=
  (view.next? rest).filter fun next => next.1.2 ∉ claimed

/-- Fewer events come after the next event in view. -/
theorem length_lt_of_next? {view : View} {rest later : List Placed} {placed : Placed}
    (h : next? claimed view rest = some (placed, later)) : later.length < rest.length :=
  view.length_lt_of_next? (Option.filter_eq_some_iff.1 h).1

/-- The positions of the events that complete some tokens. A named token takes the next event; a
wildcard first lets the tokens after it go on, and takes the next event if they cannot. The kinds
that a wildcard has taken are `absorbed`. -/
def complete (tokens : List Token) (absorbed : Finset Kind) (view : View) (rest : List Placed) :
    Option (List Nat) :=
  match tokens with
  | [] => some []
  | .named name edge :: following =>
      match _h : next? claimed view rest with
      | none => none
      | some ((event, position), later) =>
          if event.kind = (name, edge.phase) then
            (complete following ∅ (view.after event) later).map (position :: ·)
          else none
  | .wildcard :: following =>
      (complete following ∅ view rest).or <|
        match _h : next? claimed view rest with
        | none => none
        | some ((event, position), later) =>
            if rule = .noRepeat ∧ event.kind ∈ absorbed then none
            else
              (complete (.wildcard :: following) (insert event.kind absorbed) (view.after event)
                later).map (position :: ·)
termination_by (rest.length, tokens.length)
decreasing_by
  · exact Prod.Lex.left _ _ (length_lt_of_next? claimed _h)
  · exact Prod.Lex.right _ (Nat.lt_succ_self _)
  · exact Prod.Lex.left _ _ (length_lt_of_next? claimed _h)

/-- The chain of some tokens that starts at an event, if there is one. -/
def chainAt? (tokens : List Token) (start : Placed) (later : List Placed) : Option (List Nat) :=
  match tokens with
  | .named name edge :: following =>
      if start.2 ∉ claimed ∧ start.1.kind = (name, edge.phase) then
        (complete rule claimed following ∅ (View.start start.1) later).map (start.2 :: ·)
      else none
  | _ => none

/-- The chains of some tokens in trace order. A chain claims its events. -/
def scan (tokens : List Token) (claimed : Finset Nat) : List Placed → List (List Nat)
  | [] => []
  | start :: later =>
      match chainAt? rule claimed tokens start later with
      | some path => path :: scan tokens (claimed ∪ path.toFinset) later
      | none => scan tokens claimed later

/-- The positions of the chains of a pattern in a trace. -/
def paths (trace : Trace) (pattern : Pattern) (rule : RepeatRule) : List (List Nat) :=
  scan rule pattern.tokens ∅ trace.placed

/-- Tokens with no chain at any start have no chains at all. -/
theorem scan_eq_nil {rule : RepeatRule} {tokens : List Token}
    (h : ∀ claimed start later, chainAt? rule claimed tokens start later = none)
    (claimed : Finset Nat) (rest : List Placed) : scan rule tokens claimed rest = [] := by
  induction rest with
  | nil => rfl
  | cons start later ih => rw [scan, h, ih]

/-! ## Completing tokens -/

variable {rule : RepeatRule} {claimed : Finset Nat} {tokens : List Token} {absorbed : Finset Kind}
  {view : View} {rest later : List Placed} {event : Event} {position : Nat}

theorem complete_nil : complete rule claimed [] absorbed view rest = some [] := by
  rw [complete]

/-- Without a next event a named token cannot be completed. -/
theorem complete_named_of_none {name : String} {edge : Edge}
    (h : next? claimed view rest = none) :
    complete rule claimed (.named name edge :: tokens) absorbed view rest = none := by
  rw [complete]
  split
  · rfl
  · simp_all

/-- A named token takes the next event if it is of its kind. -/
theorem complete_named_of_some {name : String} {edge : Edge}
    (h : next? claimed view rest = some ((event, position), later)) :
    complete rule claimed (.named name edge :: tokens) absorbed view rest =
      if event.kind = (name, edge.phase) then
        (complete rule claimed tokens ∅ (view.after event) later).map (position :: ·)
      else none := by
  rw [complete]
  split
  · simp_all
  · rename_i hnext
    rw [h] at hnext
    cases hnext
    rfl

/-- Without a next event a wildcard can only let the tokens after it go on. -/
theorem complete_wildcard_of_none (h : next? claimed view rest = none) :
    complete rule claimed (.wildcard :: tokens) absorbed view rest =
      complete rule claimed tokens ∅ view rest := by
  rw [complete]
  split
  · exact Option.or_none
  · simp_all

/-- A wildcard takes the next event if the tokens after it cannot go on. -/
theorem complete_wildcard_of_some (h : next? claimed view rest = some ((event, position), later)) :
    complete rule claimed (.wildcard :: tokens) absorbed view rest =
      (complete rule claimed tokens ∅ view rest).or
        (if rule = .noRepeat ∧ event.kind ∈ absorbed then none
        else
          (complete rule claimed (.wildcard :: tokens) (insert event.kind absorbed)
            (view.after event) later).map (position :: ·)) := by
  rw [complete]
  congr 1
  split
  · simp_all
  · rename_i hnext
    rw [h] at hnext
    cases hnext
    rfl

/-- A wildcard at the end takes no event. -/
theorem complete_wildcard_nil : complete rule claimed [.wildcard] absorbed view rest = some [] := by
  cases h : next? claimed view rest with
  | none => rw [complete_wildcard_of_none h, complete_nil]
  | some next => rw [complete_wildcard_of_some h, complete_nil, Option.some_or]

end EventChains.Matching.Plain
