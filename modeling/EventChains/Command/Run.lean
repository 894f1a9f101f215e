import EventChains.Command.Reading
import EventChains.Findings
import EventChains.Listing
import EventChains.Log.Basic
import EventChains.Path
import EventChains.Settings.Source

/-!
# Running commands

A command loads its settings, reads its log, and then makes a timeline or a listing. The first
thing that goes wrong ends it with a message and exit code 1; a wrong command line ends with exit
code 2. The file for a timeline is made before the timeline is built, so it is there, and empty,
also when the timeline cannot be built. A timeline goes to its file in blocks, and a device that is
full refuses the first of them. The last block goes there when the timeline is complete: only if an
earlier one is refused, making the timeline has failed.

Listings and messages are styled only if the environment asks for it. A timeline has no styles.
-/

namespace EventChains.Command

open EventChains.Matching EventChains.Text

/-- Why a command ends early. -/
inductive RunFault where
  | settings (fault : Settings.SettingsFault)
  /-- The log cannot be read; the name says where it should come from. -/
  | unreadable (name : String) (fault : FileFault)
  | uncreatable (path : String) (fault : FileFault)
  /-- The timeline cannot go to its file; `complete` says whether it has been made by then. -/
  | unwritten (complete : Bool) (fault : FileFault)
  /-- The log, a pattern or the timeline is at fault. -/
  | ofFault (fault : Fault)

/-- The message for a reader at a terminal. -/
def RunFault.message : RunFault → String
  | settings fault => Fault.redMessage s!"Failed to load config: {fault.message}"
  | unreadable name fault => Fault.redMessage s!"Failed to read {name}: {fault.reason}"
  | uncreatable path fault => Fault.redMessage s!"Failed to create {path}: {fault.reason}"
  | unwritten true fault => Fault.redMessage fault.reason
  | unwritten false fault => Fault.redMessage s!"Failed to export trace: {fault.reason}"
  | ofFault fault => fault.message

/-- What a command leaves behind, apart from files. -/
structure Report where
  code : Nat := 0
  /-- What it writes to the standard output. -/
  output : String := ""
  /-- What it writes to the standard error output. -/
  errors : String := ""
  deriving DecidableEq, Repr

/-- Whether a variable is there and not empty. -/
def isRaised (environment : Environment) (name : String) : Bool :=
  (environment.get? name).any (!·.isEmpty)

/-- Whether the environment asks for styles. -/
def asksForStyles (environment : Environment) : Bool :=
  isRaised environment "CLICOLOR_FORCE" && !isRaised environment "NO_COLOR"

/-- A text with its styles, or without them if the environment does not ask for any. -/
def dressed (environment : Environment) (text : String) : String :=
  if asksForStyles environment then text else Ansi.strip text

/-! ## What a command computes -/

/-- The trace of a log, with its processes named. -/
def traceOf (settings : Settings) (log : String) : Except Fault Trace := do
  return settings.applyNames (← Log.readTrace log)

/-- The repeat rule of a search. -/
def ruleOf (settings : Settings) (search : Search) : RepeatRule :=
  if search.unrestricted then .unrestricted else settings.rule

/-- What to look for: the chains of the settings, and then the one of the command line. -/
def specsOf (settings : Settings) (search : Search) : Except Fault (List ChainSpec) := do
  let specs ← settings.specs
  match search.chain with
  | none => return specs
  | some chain => return specs ++ [⟨chain.label, ← Pattern.ofText chain.pattern⟩]

/-- The chains that a search finds. -/
def chainsOf (settings : Settings) (search : Search) (trace : Trace) :
    Except Fault (List Chain) := do
  let specs ← specsOf settings search
  return ((Findings.start trace (ruleOf settings search)).searchAll specs).1.chains

/-- Where the chains of a timeline go. -/
def trackOf (settings : Settings) (destination : Destination) : ChainTrack :=
  { settings.track with pid := destination.chainPid.getD settings.track.pid }

/-- The listing of a trace and the chains found in it. If none are looked for, it lists the
events. -/
def listing (settings : Settings) (search : Search) (trace : Trace) (chains : List Chain) :
    String :=
  if search.chain.isNone && settings.chains.isEmpty then Listing.ofTrace trace
  else Listing.styled trace chains

/-! ## What a command does -/

variable {m : Type → Type} [Monad m] (host : Host m)

/-- Goes on with the value of an action, or ends with its fault. -/
def attempt (faultOf : ε → RunFault) (action : m (Except ε α)) : ExceptT RunFault m α :=
  ExceptT.mk do return (← action).mapError faultOf

/-- Goes on with a value, or ends with its fault. -/
def orFault (result : Except Fault α) : ExceptT RunFault m α :=
  attempt .ofFault (pure result)

/-- Whether a path stands for the standard input. -/
def isInput (path : String) : Bool :=
  Path.isSame path.toList ['-']

/-- Reads the log of a command. -/
def readLog (log : Option String) : ExceptT RunFault m String :=
  match log.filter (!isInput ·) with
  | none => attempt (.unreadable "stdin") host.readInput
  | some path => attempt (.unreadable path) (host.readFile path)

/-- The number of bytes in a block of a file. -/
def blockSize : Nat := 8192

/-- Writes a timeline to its destination. Gives what goes to the standard output. -/
def writeTimeline (settings : Settings) (destination : Destination) (trace : Trace)
    (chains : List Chain) : ExceptT RunFault m String := do
  let text := Timeline.text trace chains (trackOf settings destination)
  match destination.path with
  | none => return (← orFault text) ++ "\n"
  | some path =>
      attempt (.uncreatable path) (host.createFile path)
      let text ← orFault text
      let complete : Bool := text.utf8ByteSize ≤ blockSize
      attempt (.unwritten complete) (host.writeFile path text)
      return ""

/-- Does what a command is for. Gives what goes to the standard output. -/
def perform (command : Command) : ExceptT RunFault m String := do
  let settings ← attempt .settings (Settings.load host command.settings)
  let trace ← orFault (traceOf settings (← readLog host command.log))
  match command.job with
  | .convert destination => writeTimeline host settings destination trace []
  | .search search destination =>
      let chains ← orFault (chainsOf settings search trace)
      writeTimeline host settings destination trace chains
  | .list search =>
      let chains ← orFault (chainsOf settings search trace)
      return dressed host.environment (listing settings search trace chains)

/-- Runs a command. -/
def execute (command : Command) : m Report := do
  match ← (perform host command).run with
  | .ok output => return { output }
  | .error fault => return { code := 1, errors := dressed host.environment (fault.message ++ "\n") }

/-- Runs a command line. -/
def run (arguments : List String) : m Report :=
  match read arguments with
  | .ok command => execute host command
  | .error .help => pure { output := usage ++ "\n" }
  | .error .version => pure { output := version ++ "\n" }
  | .error .misuse => pure { code := 2, errors := usage ++ "\n" }

end EventChains.Command
