import EventChains.Decimal.Layout
import EventChains.Fault
import EventChains.Settings.Tree
import EventChains.Text.Quoted

/-!
# Faults of settings

A file may be missing or malformed, a value may not fit its key, and values that fit may still make
no sense together. A fault that concerns one value names its place in the tree, such as
`chains[0]label`.
-/

namespace EventChains.Settings

open EventChains.Text

/-- What a key needs. -/
inductive Need where
  | integer
  /-- An integer that is not negative. -/
  | unsigned
  | text
  | list
  | table
  | chain
  deriving DecidableEq, Repr

/-- A need in words. -/
def Need.words : Need → String
  | integer => "an integer"
  | unsigned => "an unsigned 64 bit or less integer"
  | text => "a string"
  | list => "a sequence"
  | table => "a map"
  | chain => "struct ChainEntry"

/-- Why a value is refused that could not be converted. -/
inductive Refusal where
  /-- The value has another shape than the key needs. -/
  | shape (found : Tree) (need : Need)
  /-- A chain that is written as a list has too few items. -/
  | shortChain (size : Nat)
  | unknownRule (name : String)
  /-- A repeat rule is neither a text nor a table with one key. -/
  | notRule

/-- What is wrong with settings. -/
inductive SettingsFault where
  | noFile (path : String)
  /-- The file has not the extension of a document. -/
  | notDocument (path : String)
  | unreadable (path : String) (reason : String)
  | malformed (path : String)
  /-- A chain lacks one of its keys. -/
  | missing (place : String)
  /-- A single value cannot be converted to what its key needs. -/
  | unfit (place : String) (found : Tree) (need : Need)
  | refused (place : String) (refusal : Refusal)
  /-- The pattern of a chain is no pattern. -/
  | badPattern (fault : Fault)
  | badProcess (key : String)
  | emptyLabel (pattern : String)

/-- A real number in words; a whole one has a point. -/
def pointed (x : Float) : String :=
  let text := Decimal.listed x
  if text.toList.all fun c => c.isDigit || c == '-' then text ++ ".0" else text

/-- A value as a refusal names it. -/
def Tree.words : Tree → String
  | .unset => "unit value"
  | .text value => s!"string {quoted value}"
  | .whole value => s!"integer `{value}`"
  | .real value => s!"floating point `{pointed value}`"
  | .flag value => s!"boolean `{value}`"
  | .list _ => "sequence"
  | .table _ => "map"

/-- A value as a failed conversion names it. -/
def Tree.exactWords : Tree → String
  | .whole value => s!"64-bit integer `{value}`"
  | .real value => s!"floating point `{Decimal.listed value}`"
  | tree => tree.words

/-- A refusal in words. -/
def Refusal.reason : Refusal → String
  | shape found need => s!"invalid type: {found.words}, expected {need.words}"
  | shortChain size =>
      s!"invalid length {size}, expected struct ChainEntry with 2 elements"
  | unknownRule name => s!"enum WildcardMode does not have variant constructor {name}"
  | notRule =>
      "value of enum WildcardMode should be represented by either string or table with exactly " ++
        "one key"

/-- A fault in words. -/
def SettingsFault.message : SettingsFault → String
  | noFile path => s!"configuration file \"{path}\" not found"
  | notDocument path => s!"configuration file \"{path}\" is not of a supported file format"
  | unreadable _ reason => reason
  | malformed path => s!"malformed document in {path}"
  | missing place => s!"missing configuration field {quoted place}"
  | unfit place found need =>
      s!"invalid type: {found.exactWords}, expected {need.words} for key `{place}`"
  | refused place refusal => s!"{refusal.reason} for key `{place}`"
  | badPattern fault => s!"invalid [[chains]] entry: {fault.message}"
  | badProcess key => s!"process-names key `{key}` is not a process id"
  | emptyLabel pattern => s!"chain with pattern `{pattern}` has an empty label"

end EventChains.Settings
