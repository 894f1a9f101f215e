/-!
# Commands

There are three commands. `export` converts a log to a timeline, `match` also searches it for chains
and adds them, and `show` lists events, or chains with their events. Every command reads a log from
a file or from the standard input.
-/

namespace EventChains

/-- A pattern with a label for its chains, as they are given on the command line. -/
structure GivenChain where
  pattern : String
  label : String
  deriving DecidableEq, Repr

/-- What to look for, apart from the chains of the settings. -/
structure Search where
  chain : Option GivenChain := none
  /-- Whether wildcards may take repeated events, whatever the settings say. -/
  unrestricted : Bool := false
  deriving DecidableEq, Repr

/-- Where a timeline goes. -/
structure Destination where
  /-- A file, or else the standard output. -/
  path : Option String := none
  /-- The process of the chains, in place of that of the settings. -/
  chainPid : Option UInt64 := none
  deriving DecidableEq, Repr

/-- What a command does with its log. -/
inductive Job where
  /-- The command `export`. -/
  | convert (destination : Destination)
  /-- The command `match`. -/
  | search (search : Search) (destination : Destination)
  /-- The command `show`. -/
  | list (search : Search)
  deriving DecidableEq, Repr

/-- A command. -/
structure Command where
  job : Job
  /-- The file with the log; a hyphen stands for the standard input. -/
  log : Option String := none
  /-- The file with the settings. -/
  settings : Option String := none
  /-- Whether to tell of progress; what a command computes does not depend on it. -/
  verbose : Bool := false
  deriving DecidableEq, Repr

namespace Command

/-- The name of the program. -/
def program : String := "tracechain"

/-- The name of the program with its version. -/
def version : String := s!"{program} 0.3.0"

/-- How the program is used. -/
def usage : String :=
  "\n".intercalate [
    s!"{program} - Find event chains in execution traces",
    "",
    s!"Usage: {program} [--config <path>] [-v] <COMMAND>",
    "",
    "  export [FILE] [-o <path>] [--chain-pid <pid>]",
    "      Convert a trace log to a timeline",
    "  match [FILE] [-p <pattern> -l <label>] [--unrestricted] [-o <path>] [--chain-pid <pid>]",
    "      Match patterns and export the trace with its chains",
    "  show [FILE] [-p <pattern> -l <label>] [--unrestricted]",
    "      List events, or matched chains with their events",
    "",
    "Trace input is read from FILE, or from the standard input if FILE is absent or `-`."]

end Command

end EventChains
