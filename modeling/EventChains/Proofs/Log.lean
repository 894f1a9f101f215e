import EventChains.Log.Basic
import EventChains.Proofs.CompiledPattern

/-!
# The events of a log

A log is read line by line, and what is in one line has no bearing on another one:
`readEvents_eq_ok_iff` says that a log can be read exactly if each of its trace lines can, and that
its events are theirs in order. So the trace lines of a log may be permuted (`readEvents_of_perm`).
-/

namespace EventChains.Log

open EventChains.Text

/-- Whether a line has the marker of trace lines. -/
def isTraceLine (line : List Char) : Bool :=
  (afterMarker? line).isSome

/-- The trace lines of a log. -/
def traceLines (log : String) : List (List Char) :=
  (lines log.toList).filter isTraceLine

/-- The event of a trace line that can be read. -/
def eventOf? (line : List Char) : Option Event :=
  (readLine line).toOption.join

theorem eventOf?_eq_some_iff {line : List Char} {event : Event} :
    eventOf? line = some event ↔ readLine line = .ok (some event) := by
  rw [eventOf?, Option.join_eq_some_iff]
  cases readLine line <;> simp [Except.toOption]

/-- Reading passes exactly the lines that are no trace lines. -/
theorem readLine_eq_none_iff {line : List Char} :
    readLine line = .ok none ↔ isTraceLine line = false := by
  unfold readLine isTraceLine
  cases afterMarker? line with
  | none => exact ⟨fun _ => rfl, fun _ => rfl⟩
  | some text =>
      simp only [Option.isSome_some, Bool.true_eq_false, iff_false]
      intro h
      obtain ⟨pairs, _, h⟩ := bind_eq_ok_iff.1 h
      obtain ⟨event, _, h⟩ := bind_eq_ok_iff.1 h
      cases h

/-- A line gives an event exactly if it has a marker and the pairs after it describe the event. -/
theorem readLine_eq_some_iff {line : List Char} {event : Event} :
    readLine line = .ok (some event) ↔
      ∃ text pairs, afterMarker? line = some text ∧ readPairs text = .ok pairs ∧
        eventOfPairs pairs = .ok event := by
  unfold readLine
  constructor
  · intro h
    split at h
    · cases h
    · rename_i text htext
      obtain ⟨pairs, hpairs, h⟩ := bind_eq_ok_iff.1 h
      obtain ⟨found, hfound, h⟩ := bind_eq_ok_iff.1 h
      cases h
      exact ⟨text, pairs, htext, mapError_eq_ok_iff.1 hpairs, hfound⟩
  · rintro ⟨text, pairs, htext, hpairs, hevent⟩
    rw [htext]
    refine bind_eq_ok_iff.2 ⟨pairs, mapError_eq_ok_iff.2 hpairs, ?_⟩
    exact bind_eq_ok_iff.2 ⟨event, hevent, rfl⟩

/-- A line that is not passed is a trace line. -/
theorem isTraceLine_of_readLine {line : List Char} (h : readLine line ≠ .ok none) :
    isTraceLine line = true :=
  Bool.of_not_eq_false fun hnot => h (readLine_eq_none_iff.2 hnot)

/-- A trace line gives an event or a fault. -/
theorem exists_fault_of_readLine {line : List Char} (hline : isTraceLine line = true)
    (h : ∀ event, readLine line ≠ .ok (some event)) : ∃ fault, readLine line = .error fault := by
  cases hread : readLine line with
  | error fault => exact ⟨fault, rfl⟩
  | ok event? =>
      cases event? with
      | none =>
          rw [readLine_eq_none_iff.1 hread] at hline
          contradiction
      | some event => exact absurd hread (h event)

/-- Numbered lines can be read exactly if each trace line can, and give the events of the trace
lines. -/
theorem readLines_eq_ok_iff {numbered : List (List Char × Nat)} {events : List Event} :
    readLines numbered = .ok events ↔
      (∀ line ∈ (numbered.map Prod.fst).filter isTraceLine, (eventOf? line).isSome) ∧
        events = ((numbered.map Prod.fst).filter isTraceLine).filterMap eventOf? := by
  induction numbered generalizing events with
  | nil =>
      constructor
      · intro h
        exact ⟨fun _ hline => by contradiction, (Except.ok.inj h).symm⟩
      · rintro ⟨_, rfl⟩
        rfl
  | cons head rest ih =>
      obtain ⟨line, number⟩ := head
      rw [readLines, List.map_cons]
      cases hline : readLine line with
      | error fault =>
          have hmarked : isTraceLine line = true := isTraceLine_of_readLine (by simp [hline])
          have hnone : eventOf? line = none := by rw [eventOf?, hline]; rfl
          rw [List.filter_cons_of_pos hmarked]
          simp [hnone]
      | ok event? =>
          cases event? with
          | none =>
              rw [List.filter_cons_of_neg (by simp [readLine_eq_none_iff.1 hline])]
              exact ih
          | some event =>
              have hmarked : isTraceLine line = true := isTraceLine_of_readLine (by simp [hline])
              have hsome : eventOf? line = some event := by rw [eventOf?, hline]; rfl
              rw [List.filter_cons_of_pos hmarked, List.forall_mem_cons,
                List.filterMap_cons_some hsome]
              show (readLines rest).map (event :: ·) = .ok events ↔ _
              rw [map_eq_ok_iff]
              constructor
              · rintro ⟨more, hmore, rfl⟩
                obtain ⟨hread, rfl⟩ := ih.1 hmore
                exact ⟨⟨by simp [hsome], hread⟩, rfl⟩
              · rintro ⟨⟨_, hread⟩, rfl⟩
                exact ⟨_, ih.2 ⟨hread, rfl⟩, rfl⟩

/-- A log can be read exactly if each of its trace lines can, and its events are theirs in order. -/
theorem readEvents_eq_ok_iff {log : String} {events : List Event} :
    readEvents log = .ok events ↔
      (∀ line ∈ traceLines log, (eventOf? line).isSome) ∧
        events = (traceLines log).filterMap eventOf? := by
  rw [readEvents, readLines_eq_ok_iff, List.zipIdx_map_fst, traceLines]

/-- A log whose trace lines are those of another one in some order can be read if that one can. -/
theorem readEvents_of_perm {log other : String} {events : List Event}
    (hperm : (traceLines log).Perm (traceLines other)) (h : readEvents log = .ok events) :
    readEvents other = .ok ((traceLines other).filterMap eventOf?) := by
  obtain ⟨hread, _⟩ := readEvents_eq_ok_iff.1 h
  refine readEvents_eq_ok_iff.2 ⟨fun line hline => ?_, rfl⟩
  exact hread line (hperm.symm.subset hline)

/-- The trace of a log is the trace of its events. -/
theorem readTrace_eq_ok {log : String} {events : List Event} (h : readEvents log = .ok events) :
    readTrace log = .ok (.ofEvents events) :=
  map_eq_ok_iff.2 ⟨events, h, rfl⟩

end EventChains.Log
