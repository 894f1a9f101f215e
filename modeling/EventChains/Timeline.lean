import EventChains.Chain
import EventChains.Json.Writer

/-!
# Timelines

A timeline is a trace with its chains in the Trace Event Format: a list of records, which trace
viewers show on a time axis. There is one record for each event, in trace order; then a begin and
an end for each chain, on a thread of a process of their own; then the names of processes and
threads. Times are in microseconds.
-/

namespace EventChains

/-- Where chains go in a timeline. -/
structure ChainTrack where
  pid : UInt64 := 1000
  tid : UInt64 := 0
  processName : Option String := none
  deriving DecidableEq, Repr

namespace ChainTrack

/-- The scope of the records of chains. -/
def scope (track : ChainTrack) : Scope :=
  ⟨track.pid, track.tid⟩

end ChainTrack

/-- One record of a timeline. A record of a name has no time. -/
structure TimelineRecord where
  name : String
  /-- The time in microseconds. -/
  time : Option Float
  scope : Scope
  args : Json.Fields
  code : String
  flow : Option UInt64

namespace TimelineRecord

/-- Milliseconds as microseconds. -/
def microseconds (time : Timestamp) : Float :=
  time.val * 1000

/-- The record of an event. Only a flow event has a flow number in its record. -/
def ofEvent (event : Event) : TimelineRecord where
  name := event.name
  time := some (microseconds event.time)
  scope := event.scope
  args := event.args
  code := event.phase.code
  flow := if event.phase.isFlow then event.flow else none

/-- The record of an end of a chain. -/
def ofChainEnd (track : ChainTrack) (label : String) (phase : Phase) (time : Timestamp) :
    TimelineRecord where
  name := label
  time := some (microseconds time)
  scope := track.scope
  args := []
  code := phase.code
  flow := none

/-- The two records of a chain. -/
def ofChain (track : ChainTrack) (chain : Chain) : List TimelineRecord :=
  [ofChainEnd track chain.label .spanBegin chain.start,
    ofChainEnd track chain.label .spanEnd chain.finish]

/-- The record of a name for a process or a thread. -/
def ofName (kind : String) (scope : Scope) (name : String) : TimelineRecord where
  name := kind
  time := none
  scope := scope
  args := [("name", .text name)]
  code := "M"
  flow := none

/-- The record of a process name. -/
def ofProcessName (pid : UInt64) (name : String) : TimelineRecord :=
  ofName "process_name" ⟨pid, 0⟩ name

/-- The record of a thread name. -/
def ofThreadName (scope : Scope) (name : String) : TimelineRecord :=
  ofName "thread_name" scope name

/-- A field that may be missing. -/
def optional (key : String) (encode : α → Json) : Option α → Json.Fields
  | none => []
  | some a => [(key, encode a)]

/-- A record as JSON. -/
def toJson (record : TimelineRecord) : Json :=
  .object <|
    [("name", .text record.name)] ++ optional "ts" .real record.time ++
      [("pid", .word record.scope.pid), ("tid", .word record.scope.tid),
        ("args", .object record.args), ("ph", .text record.code)] ++
      optional "id" .word record.flow

end TimelineRecord

namespace Timeline

/-- The records of the names in a trace, and of the process of the chains. -/
def nameRecords (trace : Trace) (track : ChainTrack) (hasChains : Bool) : List TimelineRecord :=
  trace.processNames.map (fun (pid, name) => TimelineRecord.ofProcessName pid name) ++
    (match track.processName with
      | some name => if hasChains then [TimelineRecord.ofProcessName track.pid name] else []
      | none => []) ++
    trace.threadNames.map fun (scope, name) => TimelineRecord.ofThreadName scope name

/-- The records of a trace and its chains. Chains need a process without events. -/
def records (trace : Trace) (chains : List Chain) (track : ChainTrack) :
    Except Fault (List TimelineRecord) :=
  if !chains.isEmpty && trace.hasProcess track.pid then .error (.usedProcess track.pid)
  else
    .ok (trace.events.map TimelineRecord.ofEvent ++ chains.flatMap (TimelineRecord.ofChain track) ++
      nameRecords trace track !chains.isEmpty)

/-- Records as a JSON document. -/
def document (records : List TimelineRecord) : Json :=
  .object [("traceEvents", .list (records.map TimelineRecord.toJson)),
    ("displayTimeUnit", .text "ms")]

/-- The text of a trace and its chains. -/
def text (trace : Trace) (chains : List Chain) (track : ChainTrack) : Except Fault String := do
  let records ← records trace chains track
  .ok (document records).pretty

end Timeline

end EventChains
