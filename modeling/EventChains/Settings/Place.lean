import EventChains.Settings.Tree
import EventChains.Text.Numeral

/-!
# Places in a tree

A source gives its values to places. A place is a key, and then a way further down: `a.b` is the
key `b` of the table at `a`, and `a[0]` the first item of the list at `a`; a negative index counts
from the end of the list, and blanks may stand around an index. A text that has not this form is a
key as it stands.
-/

namespace EventChains.Settings

open EventChains.Text

/-- One step down from a tree into a part of it. -/
inductive Descent where
  | key (name : String)
  | index (place : Int)
  deriving DecidableEq, Repr

/-- A key and the way down from there. -/
structure Place where
  root : String
  way : List Descent
  deriving DecidableEq, Repr

namespace Place

/-- A character of a key in a place. -/
def isKeyChar (c : Char) : Bool :=
  c.isAlphanum || c == '_' || c == '-'

/-- Reads an index; it has no sign but a `-`. -/
def readIndex? (text : List Char) : Option Int :=
  let isSpace := fun c => c == ' ' || c == '\t'
  let index := ((text.dropWhile isSpace).reverse.dropWhile isSpace).reverse
  if index.head? = some '+' then none else readInt64? index

/-- Reads the way down at the end of a text; `fuel` bounds the number of steps. -/
def readWay? : (fuel : Nat) → List Char → Option (List Descent)
  | _, [] => some []
  | fuel + 1, '.' :: text => do
      let name := text.takeWhile isKeyChar
      if name.isEmpty then none
      else
        let way ← readWay? fuel (text.dropWhile isKeyChar)
        some (.key (String.ofList name) :: way)
  | fuel + 1, '[' :: text => do
      match text.dropWhile (· ≠ ']') with
      | _ :: rest =>
          let place ← readIndex? (text.takeWhile (· ≠ ']'))
          let way ← readWay? fuel rest
          some (.index place :: way)
      | [] => none
  | _, _ => none

/-- The place that a text names. -/
def ofText (text : String) : Place :=
  let chars := text.toList
  let root := chars.takeWhile isKeyChar
  match readWay? chars.length (chars.dropWhile isKeyChar) with
  | some way => if root.isEmpty then ⟨text, []⟩ else ⟨String.ofList root, way⟩
  | none => ⟨text, []⟩

end Place

namespace Tree

/-- A list in which an index exists, and the index counted from the start. Unset items fill the
list up. -/
def stretch (items : List Tree) (index : Int) : List Tree × Nat :=
  if 0 ≤ index then
    (items ++ List.replicate (index.toNat + 1 - items.length) .unset, index.toNat)
  else
    let back := index.natAbs
    (List.replicate (back - items.length) .unset ++ items, items.length - back)

/-- Changes the part of a tree at the end of a way. -/
def alter (change : Tree → Tree) : List Descent → Tree → Tree
  | [], tree => change tree
  | .key name :: way, tree =>
      let part := (tree.fields.get? name).getD .unset
      .table (tree.fields.set name (alter change way part))
  | .index index :: way, tree =>
      let (items, place) := stretch tree.items index
      .list (items.modify place (alter change way))

end Tree

/-- Lays a value over the one at the place that `key` names. -/
def Fields.assign (fields : Fields) (key : String) (value : Tree) : Fields :=
  let place := Place.ofText key
  let part := (fields.get? place.root).getD .unset
  fields.set place.root (part.alter (·.merge value) place.way)

/-- Lays all values of a source over those at their places. -/
def Fields.assignAll (fields source : Fields) : Fields :=
  source.foldl (fun fields entry => fields.assign entry.1 entry.2) fields

end EventChains.Settings
