import EventChains.Matching.Course

/-!
# Steps and the repeat rule

For the search a pattern is a sequence of steps, one for each named token: the next visible event
must be of the step's kind, or, after a wildcard, some later one. The repeat rule says whether a
wildcard may run over two events of the same kind.
-/

namespace EventChains.Matching

/-- Whether a wildcard may take two events of one kind. -/
inductive RepeatRule where
  | noRepeat
  | unrestricted
  deriving DecidableEq, Inhabited, Repr

namespace RepeatRule

/-- A rule as it is written. -/
def text : RepeatRule → String
  | noRepeat => "no-repeat"
  | unrestricted => "unrestricted"

/-- The rule that is written so. -/
def ofText? (text : String) : Option RepeatRule :=
  if text = noRepeat.text then some noRepeat
  else if text = unrestricted.text then some unrestricted
  else none

end RepeatRule

/-- What a candidate needs next. -/
inductive Step where
  /-- The next visible event is of this kind. -/
  | direct (kind : UInt32)
  /-- Some later visible event is of this kind. -/
  | awaited (kind : UInt32)
  deriving DecidableEq, Inhabited, Repr

namespace Step

/-- The kind of the event that completes a step. -/
def kind : Step → UInt32
  | direct kind => kind
  | awaited kind => kind

/-- Whether a step lets events of other kinds pass. -/
def isAwaited : Step → Bool
  | direct _ => false
  | awaited _ => true

/-- The steps of some tokens; `afterWildcard` says whether a wildcard stands before them. None if
a token names a kind of event that the trace does not have. -/
def ofTokens? (kinds : Numbering Kind) (afterWildcard : Bool) : List Token → Option (List Step)
  | [] => some []
  | .wildcard :: rest => ofTokens? kinds true rest
  | .named name edge :: rest => do
      let kind ← kinds.get? (name, edge.phase)
      let steps ← ofTokens? kinds false rest
      some ((if afterWildcard then awaited kind else direct kind) :: steps)

end Step

end EventChains.Matching
