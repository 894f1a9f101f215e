/-!
# JSON values

A JSON value keeps the order of an object's fields, and tells whole numbers from real ones. The
main statement is `Fields.get?_put`: a field that is set is found with its new value, and no other
field changes.
-/

namespace EventChains

/-- A JSON value. A whole number lies between `-2 ^ 63` and `2 ^ 64 - 1`; any other is real. -/
inductive Json where
  | null
  | bool (value : Bool)
  | whole (value : Int)
  | real (value : Float)
  | text (value : String)
  | list (items : List Json)
  | object (fields : List (String × Json))
  deriving Inhabited

namespace Json

/-- The fields of an object, in order. -/
abbrev Fields := List (String × Json)

/-- An unsigned 64-bit number. -/
def word (n : UInt64) : Json :=
  .whole n.toNat

/-- The value or `null`. -/
def ofOption (encode : α → Json) : Option α → Json
  | none => .null
  | some a => encode a

/-- A list of values. -/
def ofList (encode : α → Json) (items : List α) : Json :=
  .list (items.map encode)

namespace Fields

/-- Sets a field. A key that is there keeps its place and takes the new value; a new key goes to
the end. -/
def put (key : String) (value : Json) : Fields → Fields
  | [] => [(key, value)]
  | field :: rest =>
      if field.1 = key then (key, value) :: rest else field :: put key value rest

/-- Sets several fields in order. -/
def putAll (fields : Fields) (news : List (String × Json)) : Fields :=
  news.foldl (fun fields field => fields.put field.1 field.2) fields

/-- The value of a field. -/
def get? : Fields → String → Option Json
  | [], _ => none
  | field :: rest, key => if field.1 = key then some field.2 else get? rest key

/-- A field that is set is found with its new value, and no other field changes. -/
theorem get?_put (fields : Fields) (key other : String) (value : Json) :
    (fields.put key value).get? other = if other = key then some value else fields.get? other := by
  induction fields with
  | nil => simp [put, get?, eq_comm]
  | cons field rest ih => simp only [put]; grind [get?]

end Fields

end Json

end EventChains
