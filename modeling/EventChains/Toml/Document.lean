import EventChains.Toml.Reader

/-!
# The table of a document

Statements build a table one after the other, and none may change what an earlier one has fixed. So
a table remembers how it came to be: a header may open a table only once, and not after points in
the path of an entry have led into it; such points lead into no table that a header has opened; and
a table or list that is written as a value is closed.
-/

namespace EventChains.Toml

/-- How a table came to be. -/
inductive Origin where
  /-- A header has opened it. -/
  | opened
  /-- It holds a table that a header has opened. -/
  | implied
  /-- Points in the path of an entry have made it, or have led into it. -/
  | dotted
  deriving DecidableEq

/-- What stands at a key while the table is built. -/
inductive Slot where
  /-- A value, which is closed. -/
  | value (value : Value)
  | table (origin : Origin) (slots : List (String × Slot))
  /-- A list of tables, the newest one first. -/
  | rows (tables : List (List (String × Slot)))
  deriving Inhabited

/-- The keys of a table, in the order in which they came. -/
abbrev Slots := List (String × Slot)

namespace Slots

/-- What stands at a key. -/
def get? : Slots → String → Option Slot
  | [], _ => none
  | (k, slot) :: rest, key => if k = key then some slot else get? rest key

/-- Sets a key; a new one goes to the end. -/
def set (key : String) (slot : Slot) : Slots → Slots
  | [] => [(key, slot)]
  | (k, old) :: rest => if k = key then (key, slot) :: rest else (k, old) :: set key slot rest

/-- Gives a value to a path of a table; no key may have one already. The tables of the path are made
by points: a table that no header has opened may be there before, and counts as made by points from
now on. On the way to the last table, the path may also lead through the newest table of a list. -/
def assign? (slots : Slots) : Path → Value → Option Slots
  | [], _ => none
  | [key], value =>
      match slots.get? key with
      | none => some (slots.set key (.value value))
      | some _ => none
  | key :: path, value => do
      match slots.get? key with
      | none => some (slots.set key (.table .dotted (← assign? [] path value)))
      | some (.table .opened _) => none
      | some (.table _ inner) =>
          some (slots.set key (.table .dotted (← assign? inner path value)))
      | some (.rows (newest :: older)) =>
          if path.length = 1 then none
          else some (slots.set key (.rows ((← assign? newest path value) :: older)))
      | some _ => none

/-- Changes the table at the path of a header; missing tables are made on the way, and a list of
tables stands for its newest one. -/
def within? (slots : Slots) (change : Slots → Option Slots) : Path → Option Slots
  | [] => change slots
  | key :: path => do
      match slots.get? key with
      | none => some (slots.set key (.table .implied (← within? [] change path)))
      | some (.table origin inner) =>
          some (slots.set key (.table origin (← within? inner change path)))
      | some (.rows (newest :: older)) =>
          some (slots.set key (.rows ((← within? newest change path) :: older)))
      | some _ => none

/-- Opens the table at a key. -/
def open? (key : String) (slots : Slots) : Option Slots :=
  match slots.get? key with
  | none => some (slots.set key (.table .opened []))
  | some (.table .implied inner) => some (slots.set key (.table .opened inner))
  | some _ => none

/-- Opens a new table at the end of the list at a key. -/
def addRow? (key : String) (slots : Slots) : Option Slots :=
  match slots.get? key with
  | none => some (slots.set key (.rows [[]]))
  | some (.rows tables) => some (slots.set key (.rows ([] :: tables)))
  | some _ => none

end Slots

mutual

/-- The value that a finished slot stands for. -/
def Slot.finish : Slot → Value
  | .value value => value
  | .table _ slots => .table (finishFields slots)
  | .rows tables => .list (finishRows tables).reverse

/-- The fields of a finished table. -/
def finishFields : List (String × Slot) → List (String × Value)
  | [] => []
  | (key, slot) :: rest => (key, slot.finish) :: finishFields rest

/-- The tables of a finished list, in the order of the list. -/
def finishRows : List (List (String × Slot)) → List Value
  | [] => []
  | slots :: rest => .table (finishFields slots) :: finishRows rest

end

mutual

/-- What a written value denotes; a key given twice has no meaning. -/
def Term.denote? : Term → Option Value
  | .text value => some (.text value)
  | .whole value => some (.whole value)
  | .real value => some (.real value)
  | .flag value => some (.flag value)
  | .moment value => some (.moment value)
  | .list items => (denoteItems? items).map .list
  | .table entries => (denoteEntries? [] entries).map fun slots => .table (finishFields slots)

/-- What the items of a list denote. -/
def denoteItems? : List Term → Option (List Value)
  | [] => some []
  | item :: items => do
      let value ← item.denote?
      some (value :: (← denoteItems? items))

/-- Adds the entries of a table to its keys. -/
def denoteEntries? (slots : Slots) : List (Path × Term) → Option Slots
  | [] => some slots
  | (path, term) :: entries => do
      let value ← term.denote?
      denoteEntries? (← slots.assign? path value) entries

end

/-- A table under construction, and the path of the table that the last header opened. -/
structure Draft where
  slots : Slots := []
  place : Path := []

/-- Adds what a statement says. -/
def Draft.add? (draft : Draft) : Statement → Option Draft
  | .entry path term => do
      let value ← term.denote?
      let slots ← draft.slots.within? (·.assign? path value) draft.place
      some { draft with slots }
  | .header path => do
      let slots ← draft.slots.within? (Slots.open? (← path.getLast?)) path.dropLast
      some ⟨slots, path⟩
  | .rowHeader path => do
      let slots ← draft.slots.within? (Slots.addRow? (← path.getLast?)) path.dropLast
      some ⟨slots, path⟩

/-- Reads a document: the fields of its table, or none if it is malformed or contradicts itself. -/
def read? (text : String) : Option (List (String × Value)) := do
  let draft ← (← readStatements? text.toList).foldlM Draft.add? {}
  some (finishFields draft.slots)

end EventChains.Toml
