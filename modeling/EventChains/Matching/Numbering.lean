import Std.Data.HashMap

/-!
# Numbering

A numbering gives a number of 32 bits to each value in the order in which values first occur. Equal
values have equal numbers. Different values have different ones as long as there are no more values
than numbers; after that the numbers start again from zero.
-/

namespace EventChains.Matching

variable {α : Type} [BEq α] [Hashable α]

/-- The numbers of the values seen so far. -/
structure Numbering (α : Type) [BEq α] [Hashable α] where
  numbers : Std.HashMap α UInt32 := {}

namespace Numbering

/-- The number of a value that has been seen. -/
def get? (numbering : Numbering α) (a : α) : Option UInt32 :=
  numbering.numbers[a]?

/-- The number that a new value gets: how many values have been seen, cut to 32 bits. -/
def next (numbering : Numbering α) : UInt32 :=
  numbering.numbers.size.toUInt32

/-- The number of a value. A new value gets the next number. -/
def assign (numbering : Numbering α) (a : α) : UInt32 × Numbering α :=
  match numbering.get? a with
  | some n => (n, numbering)
  | none => (numbering.next, ⟨numbering.numbers.insert a numbering.next⟩)

end Numbering

end EventChains.Matching
