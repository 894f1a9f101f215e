import EventChains.Chain
import EventChains.Matching.Hunt

/-!
# Scanning a trace

The chains of a pattern are found in one scan over the course of the trace. Each event that is in
no chain yet and is of the first step's kind starts a hunt. A chain that is found claims its
events; a hunt that fails leaves the states that it has explored, which fail for every later hunt
too, because the claimed events only become more.
-/

namespace EventChains.Matching

/-- How far a scan has come. -/
structure Scan where
  claimed : Std.HashSet Nat := {}
  failed : Std.HashSet State := {}
  /-- The positions of each chain found so far, the last chain first. -/
  paths : List (List Nat) := []

namespace Scan

/-- The scan after a hunt. -/
def record (scan : Scan) : Outcome → Scan
  | .found path =>
      { scan with claimed := scan.claimed.insertMany path, paths := path :: scan.paths }
  | .exhausted explored => { scan with failed := scan.failed ∪ explored }

/-- Tries to start a chain at a position. -/
def visit (course : Course) (steps : Array Step) (rule : RepeatRule) (first : UInt32)
    (scan : Scan) (position : Nat) : Scan :=
  match course.slots[position]? with
  | none => scan
  | some slot =>
      if scan.claimed.contains position || slot.kind != first then scan
      else
        let hunt : Hunt :=
          { slots := course.slots, steps, rule, claimed := scan.claimed, failed := scan.failed }
        scan.record (hunt.fromStart position slot)

end Scan

namespace Course

/-- The positions of the chains that complete some steps, in trace order of their first events. -/
def paths (course : Course) (steps : List Step) (rule : RepeatRule) : List (List Nat) :=
  match steps with
  | .direct first :: _ =>
      let positions := List.range course.slots.size
      (positions.foldl (Scan.visit course steps.toArray rule first) {}).paths.reverse
  | _ => []

/-- The positions of the chains of a pattern. A pattern that names an event the trace does not have
has none. -/
def find (course : Course) (pattern : Pattern) (rule : RepeatRule) : List (List Nat) :=
  match Step.ofTokens? course.kinds false pattern.tokens with
  | some steps => course.paths steps rule
  | none => []

end Course

/-- The chain with a label on the positions `path` of a trace. -/
def chainOfPath (trace : Trace) (label : String) (path : List Nat) : Chain :=
  Chain.ofEntries label (path.filterMap (trace.order[·]?))

/-- The chains of a pattern in a trace with the given course. -/
def findOn (trace : Trace) (course : Course) (pattern : Pattern) (label : String)
    (rule : RepeatRule) : List Chain :=
  (course.find pattern rule).map (chainOfPath trace label)

/-- The chains of a pattern in a trace. -/
def find (trace : Trace) (pattern : Pattern) (label : String) (rule : RepeatRule) : List Chain :=
  findOn trace (.ofTrace trace) pattern label rule

/-- A pattern with the label of its chains. -/
structure ChainSpec where
  label : String
  pattern : Pattern
  deriving DecidableEq, Repr

/-- The chains of several patterns; each pattern is matched on its own. -/
def findAll (trace : Trace) (specs : List ChainSpec) (rule : RepeatRule) : List (List Chain) :=
  let course := Course.ofTrace trace
  specs.map fun spec => findOn trace course spec.pattern spec.label rule

end EventChains.Matching
