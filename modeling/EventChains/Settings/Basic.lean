import EventChains.Matching.Scan
import EventChains.Settings.Fault
import EventChains.Timeline
import EventChains.Trace.Basic

/-!
# Settings

Settings say which chains every run looks for, under which repeat rule, and where they go in a
timeline, and they name processes. `Settings.check` makes sure that every pattern and every process
id can be read and that every chain has a label.
-/

namespace EventChains

open EventChains.Matching EventChains.Settings EventChains.Text

/-- A chain to look for, as it is written. -/
structure ChainEntry where
  label : String
  pattern : String
  deriving DecidableEq, Repr

/-- What every run looks for, and how it is shown. -/
structure Settings where
  track : ChainTrack := {}
  rule : RepeatRule := .noRepeat
  chains : List ChainEntry := []
  /-- Names of processes, by process ids as they are written. -/
  processNames : NameTable String := []
  deriving DecidableEq, Repr

namespace Settings

/-- A chain with its pattern compiled. -/
def specOf (entry : ChainEntry) : Except Fault ChainSpec := do
  return ⟨entry.label, ← Pattern.ofText entry.pattern⟩

/-- The chains with their patterns compiled; the first pattern that is none is the fault. -/
def specs (settings : Settings) : Except Fault (List ChainSpec) :=
  settings.chains.mapM specOf

/-- The process id that a key denotes. -/
def processOf? (key : String) : Option UInt64 :=
  readUInt64? key.toList

/-- Names the process that a key denotes; a key that denotes none changes nothing. -/
def nameProcess (trace : Trace) (key name : String) : Trace :=
  match processOf? key with
  | some pid => trace.nameProcess pid name
  | none => trace

/-- Names processes in the order of their keys as texts. -/
def applyNames (settings : Settings) (trace : Trace) : Trace :=
  settings.processNames.foldl (fun trace entry => nameProcess trace entry.1 entry.2) trace

/-- The first process name whose key denotes no process. -/
def badProcess? (settings : Settings) : Option String :=
  (settings.processNames.find? fun entry => (processOf? entry.1).isNone).map (·.1)

/-- The first chain without a label. -/
def unlabelled? (settings : Settings) : Option ChainEntry :=
  settings.chains.find? fun entry => entry.label = ""

/-- Whether the settings make sense: patterns come first, then process ids, then labels. -/
def check (settings : Settings) : Except SettingsFault Unit :=
  match settings.specs, settings.badProcess?, settings.unlabelled? with
  | .error fault, _, _ => .error (.badPattern fault)
  | .ok _, some key, _ => .error (.badProcess key)
  | .ok _, none, some entry => .error (.emptyLabel entry.pattern)
  | .ok _, none, none => .ok ()

/-- A chain as JSON. -/
def chainJson (entry : ChainEntry) : Json :=
  .object [("label", .text entry.label), ("pattern", .text entry.pattern)]

/-- The settings as JSON. -/
def json (settings : Settings) : Json :=
  .object [
    ("chain-pid", .word settings.track.pid),
    ("chain-tid", .word settings.track.tid),
    ("chain-process-name", Json.ofOption .text settings.track.processName),
    ("wildcard", .text settings.rule.text),
    ("chains", Json.ofList chainJson settings.chains),
    ("process-names", .object (settings.processNames.map fun (key, name) => (key, .text name)))]

end Settings

end EventChains
