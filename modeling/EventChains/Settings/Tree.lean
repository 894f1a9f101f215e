import EventChains.Toml.Basic

/-!
# Trees of settings

What a file and the environment say is merged into one tree. `Tree.merge` lays a newer tree over an
older one: a table changes only the keys that it has, and anything else replaces what was there.
-/

namespace EventChains.Settings

/-- A value with its parts. -/
inductive Tree where
  /-- A place in a list that nothing has been said about. -/
  | unset
  | text (value : String)
  | whole (value : Int)
  | real (value : Float)
  | flag (value : Bool)
  | list (items : List Tree)
  | table (fields : List (String × Tree))
  deriving Inhabited

/-- The keys of a table. -/
abbrev Fields := List (String × Tree)

namespace Fields

/-- The value of a key. -/
def get? : Fields → String → Option Tree
  | [], _ => none
  | (k, tree) :: rest, key => if k = key then some tree else get? rest key

/-- Sets a key; a new one goes to the end. -/
def set (key : String) (tree : Tree) : Fields → Fields
  | [] => [(key, tree)]
  | (k, old) :: rest => if k = key then (key, tree) :: rest else (k, old) :: set key tree rest

end Fields

namespace Tree

/-- The keys of a table; anything else has none. -/
def fields : Tree → Fields
  | .table fields => fields
  | _ => []

/-- The items of a list; anything else has none. -/
def items : Tree → List Tree
  | .list items => items
  | _ => []

mutual

/-- Lays a newer tree over an older one. -/
def merge (old : Tree) : Tree → Tree
  | .table news => .table (mergeFields old.fields news)
  | new => new

/-- Lays newer keys over older ones. -/
def mergeFields (olds : Fields) : List (String × Tree) → Fields
  | [] => olds
  | (key, new) :: news =>
      let old := (olds.get? key).getD .unset
      mergeFields (olds.set key (old.merge new)) news

end

mutual

/-- The tree of a value of a document. A moment is a text. -/
def ofToml : Toml.Value → Tree
  | .text value | .moment value => .text value
  | .whole value => .whole value
  | .real value => .real value
  | .flag value => .flag value
  | .list items => .list (ofItems items)
  | .table fields => .table (ofFields fields)

/-- The trees of some values. -/
def ofItems : List Toml.Value → List Tree
  | [] => []
  | value :: rest => ofToml value :: ofItems rest

/-- The trees of some fields. -/
def ofFields : List (String × Toml.Value) → Fields
  | [] => []
  | (key, value) :: rest => (key, ofToml value) :: ofFields rest

end

end Tree

end EventChains.Settings
