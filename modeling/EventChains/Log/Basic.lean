import EventChains.Text.Line
import EventChains.Trace.Basic

/-!
# Logs

A log is a text of lines, some of which are trace lines. Its events are those of its trace lines,
in the order of the lines; the first faulty trace line makes the whole log faulty.
-/

namespace EventChains.Log

open EventChains.Text

/-- The events of numbered lines. -/
def readLines : List (List Char × Nat) → Except Fault (List Event)
  | [] => .ok []
  | (line, number) :: rest =>
      match readLine line with
      | .error fault => .error (.line number fault)
      | .ok none => readLines rest
      | .ok (some event) => (readLines rest).map (event :: ·)

/-- The events of a log. -/
def readEvents (log : String) : Except Fault (List Event) :=
  readLines ((lines log.toList).zipIdx 1)

/-- The trace of a log. -/
def readTrace (log : String) : Except Fault Trace :=
  (readEvents log).map Trace.ofEvents

end EventChains.Log
