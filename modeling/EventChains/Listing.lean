import EventChains.Chain

/-!
# Listings

Events and chains as lines for a reader. An event is `[time ms]: name (phase)`, a chain
`[start - finish ms]: label (n events)`, with its events indented below. The styled listing leaves
out the colons, tells the scope of each event, and sets times and scopes dim and labels bold.
-/

namespace EventChains.Listing

open EventChains.Text

/-- The line of an event. -/
def eventLine (event : Event) : String :=
  s!"[{event.time.listed} ms]: {event.name} ({event.phase.code})"

/-- The line of a chain. -/
def chainLine (chain : Chain) : String :=
  s!"[{chain.start.listed} - {chain.finish.listed} ms]: {chain.label} ({chain.size} events)"

/-- Lines as a text; each has an end. -/
def ofLines (lines : List String) : String :=
  String.join (lines.map fun line => line ++ "\n")

/-- The events of a trace in order. -/
def ofTrace (trace : Trace) : String :=
  ofLines (trace.events.map eventLine)

/-- The events of a chain. -/
def chainEvents (trace : Trace) (chain : Chain) : List Event :=
  chain.events.filterMap trace.get?

/-- The lines of a chain and its events. -/
def chainLines (trace : Trace) (chain : Chain) : List String :=
  chainLine chain :: (chainEvents trace chain).map fun event => "    " ++ eventLine event

/-- Chains with their events. -/
def ofChains (trace : Trace) (chains : List Chain) : String :=
  ofLines (chains.flatMap (chainLines trace))

/-- A text in dim letters. -/
def faint (text : String) : String :=
  s!"{Ansi.dim}{text}{Ansi.reset}"

/-- The styled line of an event. -/
def styledEventLine (event : Event) : String :=
  let time := faint s!"[{event.time.listed} ms]"
  let scope := faint event.scope.listed
  s!"    {time} {event.name} ({event.phase.code}) {scope}"

/-- The styled line of a chain. -/
def styledChainLine (chain : Chain) : String :=
  let time := faint s!"[{chain.start.listed} - {chain.finish.listed} ms]"
  s!"{time} {Ansi.bold}{Ansi.cyan}{chain.label}{Ansi.reset} ({chain.size} events)"

/-- Chains with their events, styled. -/
def styled (trace : Trace) (chains : List Chain) : String :=
  ofLines (chains.flatMap fun chain =>
    styledChainLine chain :: (chainEvents trace chain).map styledEventLine)

end EventChains.Listing
