/-!
# Name tables

A table of names under ordered keys, listed in key order. The main statement is `get?_set`: a name
that is set is found, and no other name changes.
-/

namespace EventChains

/-- Names under keys, in the order of the keys. -/
abbrev NameTable (κ : Type) := List (κ × String)

namespace NameTable

variable {κ : Type} [DecidableEq κ]

/-- The name under a key. -/
def get? : NameTable κ → κ → Option String
  | [], _ => none
  | entry :: rest, key => if entry.1 = key then some entry.2 else get? rest key

variable [LT κ] [DecidableLT κ]

/-- Sets the name under a key, at the key's place in the order. -/
def set (key : κ) (name : String) : NameTable κ → NameTable κ
  | [] => [(key, name)]
  | entry :: rest =>
      if entry.1 = key then (key, name) :: rest
      else if key < entry.1 then (key, name) :: entry :: rest
      else entry :: set key name rest

/-- A name that is set is found, and no other name changes. -/
theorem get?_set (table : NameTable κ) (key other : κ) (name : String) :
    get? (set key name table) other = if other = key then some name else get? table other := by
  induction table with
  | nil => simp [set, get?, eq_comm]
  | cons entry rest ih => simp only [set]; grind [get?]

end NameTable

end EventChains
