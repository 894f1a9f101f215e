import EventChains.Settings.Basic

/-!
# From trees to settings

A single value is converted to what its key needs where that makes sense: a number can be written
as a text, a text as a number, and a truth value as either. Keys that settings do not have are
ignored. A place is the way to a value in words, such as `chains[0]label`.
-/

namespace EventChains.Settings

open EventChains.Matching EventChains.Text

namespace Tree

/-- The number that a text stands for. -/
def wordOfText? (text : String) : Option UInt64 :=
  let word := text.toLower
  if word = "true" || word = "on" || word = "yes" then some 1
  else if word = "false" || word = "off" || word = "no" then some 0
  else readUInt64? text.toList

/-- A number without sign. A real number is rounded, a half away from zero, and what is out of
range goes to the nearest end. -/
def toWord (place : String) : Tree → Except SettingsFault UInt64
  | found@(.whole value) =>
      if 0 ≤ value then .ok (UInt64.ofNat value.toNat) else .error (.unfit place found .unsigned)
  | .real value => .ok value.round.toUInt64
  | .flag value => .ok (if value then 1 else 0)
  | found@(.text value) =>
      match wordOfText? value with
      | some word => .ok word
      | none => .error (.unfit place found .integer)
  | found => .error (.unfit place found .integer)

/-- A text. -/
def toText (place : String) : Tree → Except SettingsFault String
  | .text value => .ok value
  | .whole value => .ok (toString value)
  | .real value => .ok (Decimal.listed value)
  | .flag value => .ok (toString value)
  | found => .error (.unfit place found .text)

/-- A repeat rule, written as a text or as the only key of a table. -/
def toRule (place : String) : Tree → Except SettingsFault RepeatRule
  | .text name | .table [(name, _)] =>
      match RepeatRule.ofText? name with
      | some rule => .ok rule
      | none => .error (.refused place (.unknownRule name))
  | _ => .error (.refused place .notRule)

/-- The text at a key of a table, if the key is there. -/
def textAt? (place : String) (fields : Fields) (key : String) :
    Except SettingsFault (Option String) :=
  match fields.get? key with
  | none => .ok none
  | some tree => (tree.toText (place ++ key)).map some

/-- The text that a key must have. -/
def required (place : String) (value : Option String) : Except SettingsFault String :=
  match value with
  | some found => .ok found
  | none => .error (.missing place)

/-- A chain, written as a table or as a list of its label and its pattern. -/
def toChain (place : String) : Tree → Except SettingsFault ChainEntry
  | .table fields => do
      let label ← textAt? place fields "label"
      let pattern ← textAt? place fields "pattern"
      return ⟨← required (place ++ "label") label, ← required (place ++ "pattern") pattern⟩
  | .list (label :: pattern :: _) => do
      return ⟨← label.toText (place ++ "[0]"), ← pattern.toText (place ++ "[1]")⟩
  | .list [label] => do
      discard (label.toText (place ++ "[0]"))
      .error (.refused place (.shortChain 1))
  | .list [] => .error (.refused place (.shortChain 0))
  | found => .error (.refused place (.shape found .chain))

/-- Chains from the item at `index` on. -/
def toChainsFrom (place : String) (index : Nat) : List Tree → Except SettingsFault (List ChainEntry)
  | [] => .ok []
  | item :: items => do
      let entry ← item.toChain s!"{place}[{index}]"
      return entry :: (← toChainsFrom place (index + 1) items)

/-- Chains. -/
def toChains (place : String) : Tree → Except SettingsFault (List ChainEntry)
  | .list items => toChainsFrom place 0 items
  | found => .error (.refused place (.shape found .list))

/-- The place of a key in a table; a point stands between names. -/
def placeUnder (place key : String) : String :=
  if key = "" || key.toList.head? = some '[' then place ++ key else s!"{place}.{key}"

/-- Names by keys. -/
def toNames (place : String) : Tree → Except SettingsFault (NameTable String)
  | .table fields => fields.foldlM (fun names (key, tree) => do
      return names.set key (← tree.toText (placeUnder place key))) []
  | found => .error (.refused place (.shape found .table))

end Tree

/-- Converts the value of a key; a key that is missing has the value `default`. -/
def convert (fields : Fields) (key : String) (default : α)
    (read : String → Tree → Except SettingsFault α) : Except SettingsFault α :=
  match fields.get? key with
  | none => .ok default
  | some tree => read key tree

/-- The text of a key that may be unset. -/
def toOptionalText (place : String) : Tree → Except SettingsFault (Option String)
  | .unset => .ok none
  | tree => (tree.toText place).map some

/-- The settings of a tree, before they are checked. -/
def ofFields (fields : Fields) : Except SettingsFault Settings := do
  let defaults : Settings := {}
  let pid ← convert fields "chain-pid" defaults.track.pid Tree.toWord
  let tid ← convert fields "chain-tid" defaults.track.tid Tree.toWord
  let processName ←
    convert fields "chain-process-name" defaults.track.processName toOptionalText
  let rule ← convert fields "wildcard" defaults.rule Tree.toRule
  let chains ← convert fields "chains" defaults.chains Tree.toChains
  let processNames ← convert fields "process-names" defaults.processNames Tree.toNames
  return { track := { pid, tid, processName }, rule, chains, processNames }

end EventChains.Settings
