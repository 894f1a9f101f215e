/-!
# TOML documents

A document is a sequence of statements. An entry gives a value to a key of the table that the last
header opened; a header opens a table, and a row header opens a new table at the end of a list of
tables. Keys are paths, since `a.b` names the key `b` in the table `a`.

`Term` is a value as it is written, where an inline table still has its entries, and `Value` is what
it denotes.
-/

namespace EventChains.Toml

/-- The keys from an outer table to an inner one, and the last key. -/
abbrev Path := List String

/-- A value as it is written. -/
inductive Term where
  | text (value : String)
  | whole (value : Int)
  | real (value : Float)
  | flag (value : Bool)
  /-- A date, a time of day or both, in its usual form. -/
  | moment (value : String)
  | list (items : List Term)
  | table (entries : List (Path × Term))
  deriving Inhabited

/-- A line of a document. -/
inductive Statement where
  | entry (path : Path) (value : Term)
  | header (path : Path)
  | rowHeader (path : Path)
  deriving Inhabited

/-- What a document or a value in it denotes. -/
inductive Value where
  | text (value : String)
  | whole (value : Int)
  | real (value : Float)
  | flag (value : Bool)
  | moment (value : String)
  | list (items : List Value)
  | table (fields : List (String × Value))
  deriving Inhabited

end EventChains.Toml
