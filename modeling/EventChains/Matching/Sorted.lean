/-!
# Sorted sets

A finite set of ordered values is the strictly increasing list of its members, so that equal sets
are equal lists. Looking up and changing a set stop at the first greater member, which is why they
are right on sorted lists only.
-/

namespace EventChains.Matching

/-- A set of values in increasing order. -/
abbrev SortedSet (α : Type) := List α

namespace SortedSet

variable {α : Type} [LT α] [DecidableLT α] [DecidableEq α]

/-- Whether a value is in the set. -/
def has : SortedSet α → α → Bool
  | [], _ => false
  | b :: rest, a => if a < b then false else a == b || has rest a

/-- The set with a value. -/
def insert (a : α) : SortedSet α → SortedSet α
  | [] => [a]
  | b :: rest =>
      if a < b then a :: b :: rest
      else if a = b then b :: rest
      else b :: insert a rest

/-- The set without a value. -/
def erase (a : α) : SortedSet α → SortedSet α
  | [] => []
  | b :: rest =>
      if a < b then b :: rest
      else if a = b then rest
      else b :: erase a rest

end SortedSet

end EventChains.Matching
