import EventChains.Command.Basic
import EventChains.Command.Flag

/-!
# Reading a command line

A command line is the flags that all commands know, the word of a command, and then flags and at
most one operand, the file with the log. A flag may be given once before the word and once after
it, and then the one after it counts. `Command.read` reads a command line from left to right. The
first thing that is wrong ends it; so does a request for help or for the version.
-/

namespace EventChains.Command

open EventChains.Text

/-- Where on the command line an argument stands. -/
inductive Level where
  /-- Before the word of a command. -/
  | outer
  | convert
  | search
  | list
  deriving DecidableEq, Repr

namespace Level

/-- The flags that are known at a level. -/
def flags : Level → List Flag
  | outer => [.config, .verbose, .help, .version]
  | convert => [.config, .verbose, .help, .output, .chainPid]
  | search =>
      [.config, .verbose, .help, .output, .chainPid, .pattern, .label, .unrestricted]
  | list => [.config, .verbose, .help, .pattern, .label, .unrestricted]

/-- The level that the word of a command opens. -/
def ofWord? (word : String) : Option Level :=
  if word = "export" then some convert
  else if word = "match" then some search
  else if word = "show" then some list
  else none

end Level

/-- What ends the reading of a command line without a command. -/
inductive Stop where
  | help
  | version
  /-- The command line is wrong. -/
  | misuse
  deriving DecidableEq, Repr

/-- The flags that have been given, with their values. -/
abbrev Given := List (Flag × String)

/-- A command line of which a part has been read. -/
structure Draft where
  level : Level := .outer
  /-- The flags that stand before the word of the command. -/
  outer : Given := []
  /-- The flags at the present level. -/
  given : Given := []
  operand : Option String := none
  deriving Repr

namespace Draft

/-- Adds a flag; it must be new at its level. -/
def addFlag (draft : Draft) (flag : Flag) (value : String) : Except Stop Draft :=
  if flag = .help then .error .help
  else if flag = .version then .error .version
  else if (draft.given.lookup flag).isSome || !flag.accepts value then .error .misuse
  else .ok { draft with given := (flag, value) :: draft.given }

/-- Adds flags; also gives the one at the end that awaits its value. -/
def addPieces (draft : Draft) : List Piece → Except Stop (Draft × Option Flag)
  | [] => .ok (draft, none)
  | .unknown :: _ => .error .misuse
  | .awaiting flag :: _ => .ok (draft, some flag)
  | .flag flag value :: rest => do
      let draft ← draft.addFlag flag value
      draft.addPieces rest

/-- Adds the operand of a command; a command has at most one. -/
def addOperand (draft : Draft) (text : String) : Except Stop Draft :=
  if draft.level = .outer || draft.operand.isSome || text = "" then .error .misuse
  else .ok { draft with operand := some text }

/-- Adds an operand, or the word of the command where none has been given. -/
def addWord (draft : Draft) (text : String) : Except Stop Draft :=
  if draft.level = .outer then
    match Level.ofWord? text with
    | some level => .ok { level, outer := draft.given }
    | none => .error .misuse
  else draft.addOperand text

/-- Reads arguments from left to right. -/
def addArguments (draft : Draft) : List String → Except Stop Draft
  | [] => .ok draft
  | argument :: rest => do
      match Argument.read draft.level.flags argument with
      | .operand text => (← draft.addWord text).addArguments rest
      | .endOfFlags => rest.foldlM addOperand draft
      | .flags pieces =>
          match ← draft.addPieces pieces, rest with
          | (draft, none), rest => draft.addArguments rest
          | (_, some _), [] => .error .misuse
          | (draft, some flag), value :: rest =>
              if Argument.isValue value then (← draft.addFlag flag value).addArguments rest
              else .error .misuse

/-- Whether a flag has been given. -/
def has (draft : Draft) (flag : Flag) : Bool :=
  (draft.given.lookup flag).isSome

/-- The chain to look for; a pattern and a label come together. -/
def chain (draft : Draft) : Except Stop (Option GivenChain) :=
  match draft.given.lookup .pattern, draft.given.lookup .label with
  | some pattern, some label => .ok (some ⟨pattern, label⟩)
  | none, none => .ok none
  | _, _ => .error .misuse

/-- Where the timeline goes. -/
def destination (draft : Draft) : Destination where
  path := draft.given.lookup .output
  chainPid := (draft.given.lookup .chainPid).bind fun value => readUInt64? value.toList

/-- What to look for. -/
def search (draft : Draft) : Except Stop Search := do
  return { chain := ← draft.chain, unrestricted := draft.has .unrestricted }

/-- What the command does. -/
def job (draft : Draft) : Except Stop Job :=
  match draft.level with
  | .outer => .error .misuse
  | .convert => .ok (.convert draft.destination)
  | .search => return .search (← draft.search) draft.destination
  | .list => return .list (← draft.search)

/-- The command of a command line that has been read. -/
def command (draft : Draft) : Except Stop Command := do
  return {
    job := ← draft.job
    log := draft.operand
    settings := draft.given.lookup .config <|> draft.outer.lookup .config
    verbose := draft.has .verbose || (draft.outer.lookup .verbose).isSome }

end Draft

/-- Reads a command line. -/
def read (arguments : List String) : Except Stop Command := do
  let draft ← ({} : Draft).addArguments arguments
  draft.command

end EventChains.Command
