import EventChains.Log.Line
import EventChains.Pattern
import EventChains.Text.Ansi

/-!
# Faults

Everything that can be wrong with events, patterns, logs and exports, and the message for each: a
cross and the fault in red, the text at fault in bold, and after a blank line a hint where one
helps. Matching itself has no faults.
-/

namespace EventChains

open EventChains.Text

/-- What is wrong, and with what. -/
inductive Fault where
  | event (name : String) (fault : EventFault)
  | pattern (source : String) (fault : PatternFault)
  /-- Lines are counted from one. -/
  | line (number : Nat) (fault : Log.LineFault)
  /-- Chains cannot be exported to a process that has events of its own. -/
  | usedProcess (pid : UInt64)
  deriving DecidableEq

namespace Fault

/-- The fault in plain words. -/
def reason : Fault → String
  | event _ fault => fault.reason
  | pattern _ fault => fault.reason
  | line _ fault => fault.reason
  | usedProcess pid => s!"chain pid {pid} is already used by events in the trace"

/-- The sign before every message. -/
def errorSign : String := "❌"

/-- The sign before every hint. -/
def hintSign : String := "💡"

/-- A message in red after its sign. -/
def redMessage (text : String) : String :=
  s!"{errorSign} {Ansi.red}{text}{Ansi.defaultColour}"

/-- A text in bold. -/
def emphasized (text : String) : String :=
  s!"{Ansi.bold}{text}{Ansi.normalWeight}"

/-- A text in dim letters. -/
def faint (text : String) : String :=
  s!"{Ansi.dim}{text}{Ansi.normalWeight}"

/-- What a pattern looks like. -/
def patternHint : String :=
  let compose := faint "Compose patterns from "
  let comma := faint ", "
  let last := faint " and "
  let sample := faint ", e.g. "
  s!"\n\n{hintSign} {compose}name+{comma}name-{last}*{sample}request+*request-"

/-- What a trace line looks like. -/
def lineHint : String :=
  let looks := faint "Trace lines look like "
  s!"\n\n{hintSign} {looks}[trace] ts=1.5 pid=1 tid=2 ph=B name=\"request\""

/-- The message for a reader at a terminal. -/
def message : Fault → String
  | event name fault =>
      if name = "" then redMessage s!"Invalid event: {fault.reason}"
      else redMessage s!"Invalid event {emphasized name}: {fault.reason}"
  | pattern source fault =>
      redMessage s!"Invalid pattern {emphasized source}: {fault.reason}" ++ patternHint
  | line number fault => redMessage s!"Malformed trace line {number}: {fault.reason}" ++ lineHint
  | fault@(usedProcess _) => redMessage s!"Failed to export trace: {fault.reason}"

end Fault

/-- The pattern that a text describes; a fault names the text. -/
def Pattern.ofText (source : String) : Except Fault Pattern :=
  (Pattern.compile source).mapError (.pattern source)

/-- The event with the given parts; a fault names it. -/
def Event.ofParts (name : String) (phase : Phase) (time : Float) : Except Fault Event :=
  (Event.make name phase time).mapError (.event name)

end EventChains
