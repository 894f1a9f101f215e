import EventChains.Matching.Scan

/-!
# Findings

The findings on a trace are all chains that patterns have found in it so far, in the order of their
start times. A chain is known by its first and last event: if it is found again, the one that is
kept takes the newer label.
-/

namespace EventChains

open EventChains.Matching

/-- The chains found on one trace. -/
structure Findings where
  trace : Trace
  course : Course
  rule : RepeatRule
  chains : List Chain := []
  /-- The place of each chain, by its first and last event. -/
  places : Std.HashMap (Nat × Nat) Nat := {}

namespace Findings

/-- No findings yet. -/
def start (trace : Trace) (rule : RepeatRule) : Findings :=
  { trace, course := .ofTrace trace, rule }

/-- Gives the chain at a place a new label. -/
def relabel (chains : List Chain) (place : Nat) (label : String) : List Chain :=
  chains.modify place fun chain => { chain with label }

/-- Adds a chain at the end, or relabels the one that is kept. -/
def addChain (places : Std.HashMap (Nat × Nat) Nat) (chains : List Chain) (chain : Chain) :
    List Chain :=
  match chain.span? with
  | none => chains
  | some span =>
      match places[span]? with
      | some place => relabel chains place chain.label
      | none => chains ++ [chain]

/-- Whether a chain may stand before another one. -/
def inOrder (a b : Chain) : Bool :=
  !b.start.before a.start

/-- The places of some chains. -/
def placesOf (chains : List Chain) : Std.HashMap (Nat × Nat) Nat :=
  chains.zipIdx.foldl (fun places (chain, place) =>
    match chain.span? with
    | some span => places.insert span place
    | none => places) {}

/-- Records the chains that one pattern has found. If some are new, all are sorted; chains that
start together keep the order in which they were found. -/
def record (findings : Findings) (found : List Chain) : Findings :=
  let chains := found.foldl (addChain findings.places) findings.chains
  if findings.chains.length < chains.length then
    let sorted := chains.mergeSort inOrder
    { findings with chains := sorted, places := placesOf sorted }
  else { findings with chains }

/-- Matches a pattern. Gives the chains it has found, new and known ones. -/
def search (findings : Findings) (pattern : Pattern) (label : String) : Findings × List Chain :=
  let found := findOn findings.trace findings.course pattern label findings.rule
  (findings.record found, found)

/-- Matches the pattern that a text describes; a text that is no pattern changes nothing. -/
def searchText (findings : Findings) (source label : String) :
    Findings × Except Fault (List Chain) :=
  match Pattern.ofText source with
  | .error fault => (findings, .error fault)
  | .ok pattern =>
      let (findings, found) := findings.search pattern label
      (findings, .ok found)

/-- Matches several patterns and records their chains in order. -/
def searchAll (findings : Findings) (specs : List ChainSpec) : Findings × List (List Chain) :=
  let found := specs.map fun spec =>
    findOn findings.trace findings.course spec.pattern spec.label findings.rule
  (found.foldl record findings, found)

end Findings

end EventChains
