import EventChains.Log.Pair
import EventChains.Text.Numeral
import EventChains.Decimal.Reader
import EventChains.Event

/-!
# Trace lines

A line of a log that holds the marker `[trace] ` anywhere is a trace line: the pairs after the
first marker describe one event. The keys `name`, `ph` and `ts` are required; `pid`, `tid` and
`id` are numbers; `arg.k` gives the argument `k`; other keys mean nothing. A key that occurs again
overrides its earlier value, but each value must be readable. Faults in the pairs come first, then
the values in the order of the line, then missing keys, then the event itself.
-/

namespace EventChains.Log

open EventChains.Text

/-- The keys that hold a number. -/
inductive NumberKey where
  | pid
  | tid
  | id
  deriving DecidableEq, Repr

/-- The keys that every trace line has. -/
inductive RequiredKey where
  | name
  | ph
  | ts
  deriving DecidableEq, Repr

/-- A key as it is written. -/
def NumberKey.text : NumberKey → String
  | pid => "pid"
  | tid => "tid"
  | id => "id"

/-- A key as it is written. -/
def RequiredKey.text : RequiredKey → String
  | name => "name"
  | ph => "ph"
  | ts => "ts"

/-- Why a trace line gives no event. -/
inductive LineFault where
  | pairs (fault : PairFault)
  | unknownPhase (code : String)
  | invalidTime (text : String)
  | invalidNumber (key : NumberKey) (text : String)
  | missing (key : RequiredKey)
  | event (fault : EventFault)
  deriving DecidableEq

/-- A fault in words. -/
def LineFault.reason : LineFault → String
  | pairs fault => fault.reason
  | unknownPhase code => s!"unknown phase `{code}`"
  | invalidTime text => s!"invalid timestamp `{text}`"
  | invalidNumber key text => s!"invalid {key.text} `{text}`"
  | missing key => s!"missing `{key.text}`"
  | event fault => fault.reason

/-- The text that marks a trace line. -/
def marker : List Char := "[trace] ".toList

/-- The text after the first marker of a line. -/
def afterMarker? : List Char → Option (List Char)
  | [] => none
  | c :: rest =>
      if marker.isPrefixOf (c :: rest) then some ((c :: rest).drop marker.length)
      else afterMarker? rest

/-- The value of an argument. Quoted text stays text; plain text is read as an integer of 64 bits,
else as a finite number, else as a truth value, and is text if it is none of these. -/
def argument (value : List Char) (quoted : Bool) : Json :=
  let text := String.ofList value
  if quoted then .text text
  else
    match readInt64? value with
    | some n => .whole n
    | none =>
        match (Decimal.read? value).filter Float.isFinite with
        | some x => .real x
        | none =>
            if text = "true" then .bool true
            else if text = "false" then .bool false
            else .text text

/-- What the pairs read so far say about an event. -/
structure Draft where
  name : Option String := none
  phase : Option Phase := none
  time : Option Float := none
  scope : Scope := {}
  flow : Option UInt64 := none
  args : List (String × Json) := []

namespace Draft

/-- Reads the number under a key. -/
def number (key : NumberKey) (value : List Char) : Except LineFault UInt64 :=
  match readUInt64? value with
  | some n => .ok n
  | none => .error (.invalidNumber key (String.ofList value))

/-- Adds what a pair says. -/
def add (draft : Draft) (pair : Pair) : Except LineFault Draft :=
  let text := String.ofList pair.value
  match String.ofList pair.key with
  | "name" => .ok { draft with name := some text }
  | "ph" =>
      match Phase.ofCode? text with
      | some phase => .ok { draft with phase := some phase }
      | none => .error (.unknownPhase text)
  | "ts" =>
      match Decimal.read? pair.value with
      | some time => .ok { draft with time := some time }
      | none => .error (.invalidTime text)
  | "pid" => do
      let pid ← number .pid pair.value
      .ok { draft with scope := { draft.scope with pid } }
  | "tid" => do
      let tid ← number .tid pair.value
      .ok { draft with scope := { draft.scope with tid } }
  | "id" => do
      let flow ← number .id pair.value
      .ok { draft with flow := some flow }
  | _ =>
      match pair.key with
      | 'a' :: 'r' :: 'g' :: '.' :: key =>
          .ok { draft with
            args := draft.args ++ [(String.ofList key, argument pair.value pair.quoted)] }
      | _ => .ok draft

/-- A value that a line must give. -/
def require (key : RequiredKey) : Option α → Except LineFault α
  | some a => .ok a
  | none => .error (.missing key)

/-- The event that a whole line describes. -/
def event (draft : Draft) : Except LineFault Event := do
  let name ← require .name draft.name
  let phase ← require .ph draft.phase
  let time ← require .ts draft.time
  let event ← (Event.make name phase time).mapError .event
  .ok { event with
    scope := draft.scope
    flow := draft.flow
    args := Json.Fields.putAll [] draft.args }

end Draft

/-- The event that pairs describe. -/
def eventOfPairs (pairs : List Pair) : Except LineFault Event := do
  let draft ← pairs.foldlM Draft.add {}
  draft.event

/-- The event of a line; none if the line has no marker. -/
def readLine (line : List Char) : Except LineFault (Option Event) :=
  match afterMarker? line with
  | none => .ok none
  | some text => do
      let pairs ← (readPairs text).mapError .pairs
      let event ← eventOfPairs pairs
      .ok (some event)

end EventChains.Log
