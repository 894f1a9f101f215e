import EventChains.Json.Basic
import EventChains.Timestamp

/-!
# Events

An event has a name, a phase, a time and a scope; a flow event may carry the number of its flow.
An event is checked when it is made and keeps its checked parts after that: the name is never
empty, and the time is a `Timestamp`. The main statement is `make_eq_ok_iff`.
-/

namespace EventChains

/-- What an event marks: an end of a duration, an instant, or an end of a flow between scopes. -/
inductive Phase where
  | spanBegin
  | spanEnd
  | instant
  | flowBegin
  | flowEnd
  deriving DecidableEq, Hashable, Inhabited, Repr

namespace Phase

/-- The letter of a phase in logs, listings and exported traces. -/
def code : Phase → String
  | spanBegin => "B"
  | spanEnd => "E"
  | instant => "I"
  | flowBegin => "s"
  | flowEnd => "f"

/-- The phase with a letter; an instant may also be written in lower case. -/
def ofCode? (code : String) : Option Phase :=
  match code with
  | "B" => some spanBegin
  | "E" => some spanEnd
  | "I" | "i" => some instant
  | "s" => some flowBegin
  | "f" => some flowEnd
  | _ => none

/-- Whether an event of the phase belongs to a flow. -/
def isFlow : Phase → Bool
  | flowBegin | flowEnd => true
  | _ => false

/-- A phase is found by its letter. -/
theorem ofCode?_code (phase : Phase) : ofCode? phase.code = some phase := by
  cases phase <;> rfl

end Phase

/-- Where an event runs: a thread of a process. -/
structure Scope where
  pid : UInt64 := 0
  tid : UInt64 := 0
  deriving DecidableEq, Hashable, Inhabited, Repr

namespace Scope

/-- Scopes are ordered by process, then by thread. -/
instance : LT Scope := ⟨fun a b => a.pid < b.pid ∨ (a.pid = b.pid ∧ a.tid < b.tid)⟩

instance (a b : Scope) : Decidable (a < b) :=
  inferInstanceAs (Decidable (a.pid < b.pid ∨ (a.pid = b.pid ∧ a.tid < b.tid)))

/-- A scope as listings show it. -/
def listed (scope : Scope) : String :=
  s!"{scope.pid}/{scope.tid}"

end Scope

/-- Why an event cannot be made. -/
inductive EventFault where
  | emptyName
  | notFinite (time : Float)
  | negative (time : Float)
  /-- The event that a flow starts from is not in the trace. -/
  | unknownSource
  /-- The event that a flow leads to is not in the trace. -/
  | unknownTarget
  deriving DecidableEq

/-- A fault in words. -/
def EventFault.reason : EventFault → String
  | emptyName => "event name is empty"
  | notFinite time => s!"timestamp {Decimal.listed time} is not a finite number"
  | negative time => s!"timestamp {Decimal.listed time} is negative"
  | unknownSource => "flow source is not in this trace"
  | unknownTarget => "flow destination is not in this trace"

/-- An event of a trace. -/
structure Event where
  name : String
  phase : Phase
  time : Timestamp
  scope : Scope := {}
  flow : Option UInt64 := none
  args : Json.Fields := []
  name_ne_empty : name ≠ ""

namespace Event

/-- Makes an event in scope `0/0` without a flow and without arguments. Of several faults the
first in the order name, finiteness, sign is reported. -/
def make (name : String) (phase : Phase) (time : Float) : Except EventFault Event :=
  if hname : name = "" then .error .emptyName
  else if hfinite : time.isFinite = true then
    if hsign : (0 : Float) ≤ time then
      .ok { name, phase, time := ⟨time, hfinite, hsign⟩, name_ne_empty := hname }
    else .error (.negative time)
  else .error (.notFinite time)

/-- Exactly the events with a name and a finite time from zero on can be made. -/
theorem make_eq_ok_iff {name : String} {phase : Phase} {time : Float} {event : Event} :
    make name phase time = .ok event ↔
      ∃ (t : Timestamp) (h : name ≠ ""), time = t.val ∧
        event = { name, phase, time := t, name_ne_empty := h } := by
  unfold make
  constructor
  · intro h
    split at h
    · contradiction
    · rename_i hname
      split at h
      · rename_i hfinite
        split at h
        · rename_i hsign
          cases h
          exact ⟨⟨time, hfinite, hsign⟩, hname, rfl, rfl⟩
        · contradiction
      · contradiction
  · rintro ⟨t, hname, rfl, rfl⟩
    simp [hname, t.isFinite, t.nonneg]

/-- An event with a name can be made at every timestamp. -/
theorem make_val {name : String} (h : name ≠ "") (phase : Phase) (time : Timestamp) :
    make name phase time.val = .ok { name, phase, time, name_ne_empty := h } :=
  make_eq_ok_iff.2 ⟨time, h, rfl, rfl⟩

/-- The event in another scope. -/
def inScope (event : Event) (scope : Scope) : Event :=
  { event with scope }

/-- The event in another process. -/
def inProcess (event : Event) (pid : UInt64) : Event :=
  { event with scope := { event.scope with pid } }

/-- The event in another thread of its process. -/
def inThread (event : Event) (tid : UInt64) : Event :=
  { event with scope := { event.scope with tid } }

/-- The event with a flow number. -/
def withFlow (event : Event) (flow : UInt64) : Event :=
  { event with flow := some flow }

/-- The event with further arguments. -/
def withArgs (event : Event) (args : List (String × Json)) : Event :=
  { event with args := event.args.putAll args }

end Event

end EventChains
